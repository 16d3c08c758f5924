-- Where the files of a run are. Names of runs without a slash give each file of each run a place
-- of its own, on one of two shelves: with the runs that are going on, or in the history. An
-- operation of the storage either fails and changes nothing, or changes what is at such places.
import DryKiln.Proofs.Files.Moving
import DryKiln.Proofs.Files.Names
import DryKiln.Storage.Basic

namespace DryKiln

/-- The two shelves for the files of a run. -/
inductive Shelf where
  | running
  | history
deriving DecidableEq

/-- The directory of a shelf, from the base of the storage. -/
def Shelf.names : Shelf → Artifact → List String
  | .running, _ => ["running"]
  | .history, .program => ["history"]
  | .history, .state => ["history", "status"]
  | .history, .log => ["history", "logs"]

/-- The place of a file of a run. -/
def spot (base : Path) (shelf : Shelf) (artifact : Artifact) (run : String) : Path :=
  base ++ shelf.names artifact ++ [artifact.fileName run]

namespace Artifact

theorem mem_all (artifact : Artifact) : artifact ∈ all := by
  cases artifact <;> decide

theorem fileName_toList (artifact : Artifact) (run : String) :
    (artifact.fileName run).toList = run.toList ++ '.' :: artifact.extension.toList := by
  simp [fileName]

theorem slash_not_mem_fileName {run : String} (h : '/' ∉ run.toList) (artifact : Artifact) :
    '/' ∉ (artifact.fileName run).toList := by
  rw [fileName_toList]
  cases artifact <;> simp [h, extension]

theorem length_fileName (artifact : Artifact) (run : String) :
    3 < (artifact.fileName run).toList.length := by
  rw [fileName_toList]
  cases artifact <;> simp [extension]

theorem isDots_fileName (artifact : Artifact) (run : String) :
    FileTree.isDots (artifact.fileName run) = false := by
  have hlength := artifact.length_fileName run
  rw [FileTree.isDots_eq_false_iff]
  refine ⟨?_, ?_, ?_⟩ <;>
  · intro heq
    rw [heq] at hlength
    exact absurd hlength (by decide)

theorem fileName_inj {artifact artifact' : Artifact} {run run' : String}
    (h : artifact.fileName run = artifact'.fileName run') : artifact = artifact' ∧ run = run' := by
  have hlist := congrArg String.toList h
  rw [fileName_toList, fileName_toList] at hlist
  have hsame : artifact = artifact' := by
    have hlast := congrArg List.getLast? hlist
    cases artifact <;> cases artifact' <;> first | rfl | simp [extension] at hlast
  subst hsame
  exact ⟨rfl, String.toList_inj.mp (List.append_cancel_right hlist)⟩

end Artifact

theorem spot_inj {base : Path} {shelf shelf' : Shelf} {artifact artifact' : Artifact}
    {run run' : String} (h : spot base shelf artifact run = spot base shelf' artifact' run') :
    shelf = shelf' ∧ artifact = artifact' ∧ run = run' := by
  obtain ⟨hnames, hfile⟩ := List.append_inj' h rfl
  obtain ⟨hartifact, hrun⟩ := Artifact.fileName_inj (List.singleton_inj.mp hfile)
  refine ⟨?_, hartifact, hrun⟩
  have hshelf := List.append_cancel_left hnames
  cases shelf <;> cases shelf' <;> cases artifact <;> cases artifact' <;>
    first | rfl | simp [Shelf.names] at hshelf

theorem Artifact.fileName_ne_of_dotless (artifact : Artifact) {run name : String}
    (h : '.' ∉ name.toList) : artifact.fileName run ≠ name := by
  rintro rfl
  exact h (by simp [fileName_toList])

/-- No place of a file of a run is below another one. -/
theorem spot_of_below {base rest : Path} {shelf shelf' : Shelf} {artifact artifact' : Artifact}
    {run run' : String}
    (h : spot base shelf artifact run <+: spot base shelf' artifact' run' ++ rest) :
    shelf = shelf' ∧ artifact = artifact' ∧ run = run' := by
  have hstatus : artifact.fileName run ≠ "status" := artifact.fileName_ne_of_dotless (by decide)
  have hlogs : artifact.fileName run ≠ "logs" := artifact.fileName_ne_of_dotless (by decide)
  have hstatus' : artifact'.fileName run' ≠ "status" := artifact'.fileName_ne_of_dotless (by decide)
  have hlogs' : artifact'.fileName run' ≠ "logs" := artifact'.fileName_ne_of_dotless (by decide)
  have hname : artifact.fileName run = artifact'.fileName run' ∧ shelf = shelf' := by
    simp only [spot, List.append_assoc, List.prefix_append_right_inj] at h
    cases shelf <;> cases shelf' <;> cases artifact <;> cases artifact' <;>
      simp_all [Shelf.names, eq_comm]
  exact ⟨hname.2, Artifact.fileName_inj hname.1⟩

theorem spot_ne_of_run {base : Path} {run run' : String} (h : run ≠ run')
    (shelf shelf' : Shelf) (artifact artifact' : Artifact) :
    spot base shelf artifact run ≠ spot base shelf' artifact' run' :=
  fun heq => h (spot_inj heq).2.2

theorem spot_ne_of_artifact {base : Path} {artifact artifact' : Artifact} (h : artifact ≠ artifact')
    (shelf shelf' : Shelf) (run run' : String) :
    spot base shelf artifact run ≠ spot base shelf' artifact' run' :=
  fun heq => h (spot_inj heq).2.1

theorem running_ne_history (base : Path) (artifact artifact' : Artifact) (run run' : String) :
    spot base .running artifact run ≠ spot base .history artifact' run' :=
  fun heq => nomatch (spot_inj heq).1

/-! ## Walking -/

namespace FileTree

/-- The places that names lead over. -/
def visits (place : Path) : List String → List Path
  | [] => []
  | name :: names =>
    if name = "" ∨ name = "." then visits place names
    else if name = ".." then visits place.dropLast names
    else (place ++ [name]) :: visits (place ++ [name]) names

/-- A walk succeeds wherever the places that it leads over are directories too. -/
theorem walk_of_visits {tree next : FileTree} {place last : Path} {names : List String}
    (h : ∀ p ∈ visits place names, tree.get? p = some .directory → next.get? p = some .directory)
    (hwalk : tree.walk place names = .ok last) : next.walk place names = .ok last := by
  induction names generalizing place with
  | nil => exact hwalk
  | cons name names ih =>
    rw [walk] at hwalk ⊢
    rw [visits] at h
    by_cases hskip : name = "" ∨ name = "."
    · rw [if_pos hskip] at h hwalk ⊢
      exact ih h hwalk
    by_cases hup : name = ".."
    · rw [if_neg hskip, if_pos hup] at h hwalk ⊢
      exact ih h hwalk
    by_cases hlong : tooLong name = true
    · rw [if_neg hskip, if_neg hup, if_pos hlong] at hwalk
      cases hwalk
    rw [if_neg hskip, if_neg hup, List.forall_mem_cons] at h
    rw [if_neg hskip, if_neg hup, if_neg hlong] at hwalk ⊢
    split at hwalk
    · cases hwalk
    · cases hwalk
    · rename_i hget
      rw [h.1 hget]
      exact ih h.2 hwalk

/-- A walk along directories succeeds wherever these are directories too. -/
theorem walk_of_directories {tree next : FileTree}
    (h : ∀ p, tree.get? p = some .directory → next.get? p = some .directory)
    {place last : Path} {names : List String} (hwalk : tree.walk place names = .ok last) :
    next.walk place names = .ok last :=
  walk_of_visits (fun p _ => h p) hwalk

/-- A walk one name further, from where a directory leads. -/
theorem walk_joinPath_eq {tree : FileTree} {directory name : String} {place : Path}
    (hwalk : tree.walk [] (pathNames directory) = .ok place) (hname : ProperName name) :
    tree.walk [] (pathNames (joinPath directory name)) =
      match tree.get? (place ++ [name]) with
      | none => .error .notFound
      | some (.file _ _) => .error .notDirectory
      | some .directory => .ok (place ++ [name]) := by
  obtain ⟨names, hnames, hsame⟩ := pathNames_joinPath directory hname.slashless
  obtain ⟨hempty, hdot, hdots⟩ := isDots_eq_false_iff.mp hname.notDots
  rw [hnames, walk_append, hsame, hwalk]
  cases hget : tree.get? (place ++ [name]) with
  | none => simp [Except.bind, walk, hempty, hdot, hdots, hname.short, hget]
  | some entry =>
    cases entry <;> simp [Except.bind, walk, hempty, hdot, hdots, hname.short, hget]

/-- A walk into one directory more. -/
theorem walk_joinPath {tree : FileTree} {directory name : String} {place : Path}
    (hwalk : tree.walk [] (pathNames directory) = .ok place) (hname : ProperName name)
    (hget : tree.get? (place ++ [name]) = some .directory) :
    tree.walk [] (pathNames (joinPath directory name)) = .ok (place ++ [name]) := by
  rw [walk_joinPath_eq hwalk hname, hget]

/-- Where a directory cannot be reached, nothing in it can. -/
theorem walk_joinPath_of_error {tree : FileTree} {directory name : String} {fault : FileFault}
    (hwalk : tree.walk [] (pathNames directory) = .error fault) (hslash : '/' ∉ name.toList) :
    tree.walk [] (pathNames (joinPath directory name)) = .error fault := by
  obtain ⟨names, hnames, hsame⟩ := pathNames_joinPath directory hslash
  rw [hnames, walk_append, hsame, hwalk]
  rfl

end FileTree

/-! ## A storage with its directories -/

namespace Storage

/-- The text of the path of a file. -/
def file (storage : Storage) : Shelf → Artifact → String → String
  | .running => storage.runningFile
  | .history => storage.archiveFile

def directory (storage : Storage) : Shelf → Artifact → String
  | .running, _ => storage.runningDir
  | .history, artifact => storage.archiveDir artifact

theorem file_eq (storage : Storage) (shelf : Shelf) (artifact : Artifact) (run : String) :
    storage.file shelf artifact run =
      joinPath (storage.directory shelf artifact) (artifact.fileName run) := by
  cases shelf <;> rfl

/-- The file system cannot hold a file of this name here. -/
def nameFault (storage : Storage) (shelf : Shelf) (artifact : Artifact) (run : String) :
    Option FileFault :=
  match FileTree.badText (storage.file shelf artifact run) with
  | some fault => some fault
  | none => if FileTree.tooLong (artifact.fileName run) then some .nameTooLong else none

/-- The file system can hold all files of a run on both shelves. -/
def Fits (storage : Storage) (run : String) : Prop :=
  ∀ shelf artifact, storage.nameFault shelf artifact run = none

/-- The base of a storage is a place in a tree, and its directories are there. -/
structure Laid (storage : Storage) (tree : FileTree) (base : Path) : Prop where
  sound : tree.Sound
  based : tree.walk [] (pathNames storage.base) = .ok base
  there : ∀ shelf artifact, tree.get? (base ++ Shelf.names shelf artifact) = some .directory

section Laid

variable {storage : Storage} {tree next : FileTree} {base : Path} {run : String}

theorem Laid.congr (h : Laid storage tree base) (hsteady : FileTree.Steady tree next) :
    Laid storage next base :=
  ⟨hsteady.sound,
    FileTree.walk_of_directories (fun p hp => (hsteady.directory_iff p).mpr hp) h.based,
    fun shelf artifact => (hsteady.directory_iff _).mpr (h.there shelf artifact)⟩

theorem proper_running : FileTree.ProperName "running" :=
  ⟨by decide, by decide, by decide, by decide⟩

theorem proper_history : FileTree.ProperName "history" :=
  ⟨by decide, by decide, by decide, by decide⟩

theorem proper_status : FileTree.ProperName "status" :=
  ⟨by decide, by decide, by decide, by decide⟩

theorem proper_logs : FileTree.ProperName "logs" :=
  ⟨by decide, by decide, by decide, by decide⟩

theorem Laid.walk_directory (h : Laid storage tree base) (shelf : Shelf) (artifact : Artifact) :
    tree.walk [] (pathNames (storage.directory shelf artifact)) =
      .ok (base ++ shelf.names artifact) := by
  have hhistory : tree.walk [] (pathNames storage.historyDir) = .ok (base ++ ["history"]) :=
    FileTree.walk_joinPath h.based proper_history (h.there .history .program)
  cases shelf with
  | running => exact FileTree.walk_joinPath h.based proper_running (h.there .running .program)
  | history =>
    cases artifact with
    | program => exact hhistory
    | state =>
      have hnames : base ++ Shelf.names .history .state = base ++ ["history"] ++ ["status"] := by
        simp [Shelf.names]
      rw [hnames]
      exact FileTree.walk_joinPath hhistory proper_status (hnames ▸ h.there .history .state)
    | log =>
      have hnames : base ++ Shelf.names .history .log = base ++ ["history"] ++ ["logs"] := by
        simp [Shelf.names]
      rw [hnames]
      exact FileTree.walk_joinPath hhistory proper_logs (hnames ▸ h.there .history .log)

theorem directory_ne_empty (storage : Storage) (shelf : Shelf) (artifact : Artifact) :
    storage.directory shelf artifact ≠ "" := by
  cases shelf with
  | running => exact joinPath_ne_empty _ proper_running.slashless (by decide)
  | history =>
    cases artifact with
    | program => exact joinPath_ne_empty _ proper_history.slashless (by decide)
    | state => exact joinPath_ne_empty _ proper_status.slashless (by decide)
    | log => exact joinPath_ne_empty _ proper_logs.slashless (by decide)

theorem Laid.resolve_file (h : Laid storage tree base) (hrun : '/' ∉ run.toList) (shelf : Shelf)
    (artifact : Artifact) : tree.resolve (storage.file shelf artifact run) =
      match storage.nameFault shelf artifact run with
      | some fault => .error fault
      | none => .ok (spot base shelf artifact run) := by
  have hresolve := tree.resolve_joinPath (storage.directory shelf artifact)
    (Artifact.slash_not_mem_fileName hrun artifact) (artifact.isDots_fileName run)
  rw [← file_eq, h.walk_directory] at hresolve
  rw [hresolve, nameFault]
  cases FileTree.badText (storage.file shelf artifact run) with
  | some fault => rfl
  | none =>
    simp only [Except.bind]
    split <;> rfl

theorem Laid.resolve_of_fits (h : Laid storage tree base) (hrun : '/' ∉ run.toList) (shelf : Shelf)
    (artifact : Artifact) (hfits : storage.nameFault shelf artifact run = none) :
    tree.resolve (storage.file shelf artifact run) = .ok (spot base shelf artifact run) := by
  rw [h.resolve_file hrun, hfits]

theorem Laid.resolve_of_fault (h : Laid storage tree base) (hrun : '/' ∉ run.toList) (shelf : Shelf)
    (artifact : Artifact) {fault : FileFault}
    (hfault : storage.nameFault shelf artifact run = some fault) :
    tree.resolve (storage.file shelf artifact run) = .error fault := by
  rw [h.resolve_file hrun, hfault]

theorem proper_of_nameFault {shelf : Shelf} {artifact : Artifact} (hrun : '/' ∉ run.toList)
    (h : storage.nameFault shelf artifact run = none) :
    FileTree.ProperName (artifact.fileName run) := by
  have hslash := Artifact.slash_not_mem_fileName hrun artifact
  unfold nameFault at h
  split at h
  · cases h
  · rename_i hbad
    refine ⟨hslash, artifact.isDots_fileName run, ?_, ?_⟩
    · intro hnul
      have hmem : '\x00' ∈ (storage.file shelf artifact run).toList := by
        rw [file_eq, joinPath_of_not_mem _ hslash]
        split <;> simp [hnul]
      simp [FileTree.badText, hmem] at hbad
    · split at h
      · cases h
      · rename_i hshort
        simpa using hshort

/-! ## The operations -/

/-- A run that has been created has a new file that has taken its program. -/
theorem created_of_ok {program : Program} (h : storage.createRun tree run program = .ok next) :
    ∃ opened written, tree.create (storage.runningFile .program run) = .ok opened ∧
      opened.1.write opened.2 (programText program) = .ok written ∧ next = written.1 := by
  unfold createRun at h
  split at h
  · cases h
  · cases h
  · rename_i created file hcreate
    split at h
    · cases h
    · rename_i written rest hwrite
      cases h
      exact ⟨(created, file), (next, rest), hcreate, hwrite, rfl⟩

/-- A state that has been stored is in a file that was opened for it. -/
theorem emptied_of_ok {state : RunState} (h : storage.updateState tree run state = .ok next) :
    ∃ opened written, tree.openEmpty (storage.runningFile .state run) = .ok opened ∧
      opened.1.write opened.2 state.label = .ok written ∧ next = written.1 := by
  unfold updateState FileTree.writeText at h
  cases hopen : tree.openEmpty (storage.runningFile .state run) with
  | error fault => simp [hopen, Except.mapError] at h
  | ok opened =>
    cases hwrite : opened.1.write opened.2 state.label with
    | error unfinished => simp [hopen, hwrite, Except.mapError, Except.map] at h
    | ok written =>
      refine ⟨opened, written, rfl, hwrite, ?_⟩
      simpa [hopen, hwrite, Except.mapError, Except.map, eq_comm] using h

theorem opened_of_ok {opened : FileTree × OpenFile} (h : storage.openLog tree run = .ok opened) :
    tree.openEmpty (storage.runningFile .log run) = .ok opened := by
  unfold openLog stored at h
  cases hopen : tree.openEmpty (storage.runningFile .log run) with
  | error fault => simp [hopen, Except.mapError] at h
  | ok result => simpa [hopen, Except.mapError] using h

/-- What becomes of a run that is to be created. -/
inductive Created (storage : Storage) (tree : FileTree) (base : Path) (run : String)
    (program : Program) : Except (Unfinished StorageFault) FileTree → Prop where
  | stored {next : FileTree} (fits : storage.nameFault .running .program run = none)
      (free : tree.get? (spot base .running .program run) = none) (room : tree.nextId ∉ tree.full)
      (holds : FileTree.Holds tree (base ++ ["running"]) (Artifact.fileName .program run)
        tree.nextId (.text (programText program)) next) (sound : next.Sound) :
      Created storage tree base run program (.ok next)
  | cut {taken : Nat} {left : FileTree} (fits : storage.nameFault .running .program run = none)
      (free : tree.get? (spot base .running .program run) = none) (full : tree.nextId ∈ tree.full)
      (holds : FileTree.Holds tree (base ++ ["running"]) (Artifact.fileName .program run)
        tree.nextId (.beginning (programText program) taken) left) (sound : left.Sound) :
      Created storage tree base run program
        (.error ⟨left, unwritten (programText program) taken .storageFull⟩)
  | taken {entry : Entry} (fits : storage.nameFault .running .program run = none)
      (there : tree.get? (spot base .running .program run) = some entry) :
      Created storage tree base run program (.error ⟨tree, .runExists run⟩)
  | unfit {cause : FileFault} {fault : StorageFault}
      (unfit : storage.nameFault .running .program run = some cause) :
      Created storage tree base run program (.error ⟨tree, fault⟩)

/-- What becomes of a run whose state is to be stored. -/
inductive Restated (storage : Storage) (tree : FileTree) (base : Path) (run : String)
    (state : RunState) : Except (Unfinished StorageFault) FileTree → Prop where
  | stored {id : Nat} {next : FileTree} (fits : storage.nameFault .running .state run = none)
      (room : id ∉ tree.full) (mayOpen : tree.MayOpen (spot base .running .state run))
      (holds : FileTree.Holds tree (base ++ ["running"]) (Artifact.fileName .state run) id
        (.text state.label) next) (sound : next.Sound) :
      Restated storage tree base run state (.ok next)
  | cut {id taken : Nat} {left : FileTree} (fits : storage.nameFault .running .state run = none)
      (full : id ∈ tree.full) (mayOpen : tree.MayOpen (spot base .running .state run))
      (holds : FileTree.Holds tree (base ++ ["running"]) (Artifact.fileName .state run) id
        (.beginning state.label taken) left) (sound : left.Sound) :
      Restated storage tree base run state (.error ⟨left, .file .storageFull⟩)
  | barred (fits : storage.nameFault .running .state run = none)
      (there : tree.get? (spot base .running .state run) = some .directory) :
      Restated storage tree base run state (.error ⟨tree, .file .isDirectory⟩)
  | locked {id : Nat} {c : Contents} (fits : storage.nameFault .running .state run = none)
      (there : tree.get? (spot base .running .state run) = some (.file id c))
      (locked : id ∈ tree.locked) :
      Restated storage tree base run state (.error ⟨tree, .file .permissionDenied⟩)
  | unfit {cause : FileFault} (unfit : storage.nameFault .running .state run = some cause) :
      Restated storage tree base run state (.error ⟨tree, .file cause⟩)

theorem Laid.created (h : Laid storage tree base) (hrun : '/' ∉ run.toList) (program : Program) :
    Created storage tree base run program (storage.createRun tree run program) := by
  cases hfits : storage.nameFault .running .program run with
  | some cause =>
    have hcreate : tree.create (storage.runningFile .program run) = .error cause :=
      FileTree.create_of_error (h.resolve_of_fault hrun .running .program hfits)
    unfold createRun
    rw [hcreate]
    cases cause <;> exact .unfit hfits
  | none =>
    have hresolve := h.resolve_of_fits hrun .running .program hfits
    cases hget : tree.get? (spot base .running .program run) with
    | some entry =>
      have hcreate : tree.create (storage.runningFile .program run) = .error .alreadyExists :=
        FileTree.create_of_taken hresolve hget
      unfold createRun
      rw [hcreate]
      exact .taken hfits hget
    | none =>
      obtain ⟨created, hcreate, hholds, hsound⟩ := FileTree.create_of_free h.sound hresolve
        (h.there .running .program) (proper_of_nameFault hrun hfits) hget
      unfold createRun
      rw [show tree.create (storage.runningFile .program run) = _ from hcreate]
      by_cases hfull : tree.nextId ∈ tree.full
      · have hwrite : created.write ⟨tree.nextId, 0⟩ (programText program) =
            .error ⟨(created.cut ⟨tree.nextId, 0⟩ (programText program)).1, .storageFull⟩ :=
          FileTree.write_of_full (hholds.full_eq ▸ hfull) _
        simp only [hwrite]
        exact .cut hfits hget hfull (hholds.cut h.sound _) (hsound.alter _ _)
      · have hwrite : created.write ⟨tree.nextId, 0⟩ (programText program) =
            .ok (created.overwrite ⟨tree.nextId, 0⟩ (programText program)) :=
          FileTree.write_of_room (hholds.full_eq ▸ hfull) _
        simp only [hwrite]
        exact .stored hfits hget hfull (hholds.overwrite h.sound _) (hsound.alter _ _)

theorem Laid.restated (h : Laid storage tree base) (hrun : '/' ∉ run.toList) (state : RunState) :
    Restated storage tree base run state (storage.updateState tree run state) := by
  cases hfits : storage.nameFault .running .state run with
  | some cause =>
    have hwrite : tree.writeText (storage.runningFile .state run) state.label =
        .error ⟨tree, cause⟩ := FileTree.writeText_of_error _
      (FileTree.openEmpty_of_error (h.resolve_of_fault hrun .running .state hfits))
    rw [updateState, hwrite]
    exact .unfit hfits
  | none =>
    have hrewritten := FileTree.rewritten h.sound (h.resolve_of_fits hrun .running .state hfits)
      (h.there .running .state) (proper_of_nameFault hrun hfits) state.label
    unfold updateState
    cases hwrite : tree.writeText (storage.runningFile .state run) state.label with
    | ok next =>
      rw [show tree.writeText (storage.file .running .state run) state.label = _ from hwrite]
        at hrewritten
      cases hrewritten with
      | written room mayOpen holds sound => exact .stored hfits room mayOpen holds sound
    | error unfinished =>
      rw [show tree.writeText (storage.file .running .state run) state.label = _ from hwrite]
        at hrewritten
      cases hrewritten with
      | cut full mayOpen holds sound => exact .cut hfits full mayOpen holds sound
      | barred there => exact .barred hfits there
      | locked there locked => exact .locked hfits there locked

theorem Laid.createRun_of_taken (h : Laid storage tree base) (hrun : '/' ∉ run.toList)
    (hfits : storage.nameFault .running .program run = none) {entry : Entry}
    (htaken : tree.get? (spot base .running .program run) = some entry) (program : Program) :
    storage.createRun tree run program = .error ⟨tree, .runExists run⟩ := by
  have hcreated := h.created hrun program
  generalize storage.createRun tree run program = result at hcreated
  cases hcreated with
  | stored _ free => cases htaken.symm.trans free
  | cut _ free => cases htaken.symm.trans free
  | taken => rfl
  | unfit unfit => cases hfits.symm.trans unfit

/-- A run is created exactly if its name can be held, no program of this name is running, and the
disk takes the program. -/
theorem Laid.createRun_ok_iff (h : Laid storage tree base) (hrun : '/' ∉ run.toList)
    (program : Program) : (∃ next, storage.createRun tree run program = .ok next) ↔
      storage.nameFault .running .program run = none ∧
        tree.get? (spot base .running .program run) = none ∧ tree.nextId ∉ tree.full := by
  have hcreated := h.created hrun program
  generalize storage.createRun tree run program = result at hcreated
  cases hcreated with
  | stored fits free room => simp [fits, free, room]
  | cut _ _ full => simp [full]
  | taken _ there => simp [there]
  | unfit unfit => simp [unfit]

theorem Laid.createRun_of_ok (h : Laid storage tree base) (hrun : '/' ∉ run.toList)
    {program : Program} (hok : storage.createRun tree run program = .ok next) :
    tree.get? (spot base .running .program run) = none ∧
      FileTree.Holds tree (base ++ ["running"]) (Artifact.fileName .program run) tree.nextId
        (.text (programText program)) next ∧ next.Sound := by
  have hcreated := h.created hrun program
  rw [hok] at hcreated
  cases hcreated with
  | stored _ free _ holds sound => exact ⟨free, holds, sound⟩

theorem Laid.createRun_of_free (h : Laid storage tree base) (hrun : '/' ∉ run.toList)
    (hfits : storage.nameFault .running .program run = none)
    (hfree : tree.get? (spot base .running .program run) = none)
    (hroom : tree.nextId ∉ tree.full) (program : Program) :
    ∃ next, storage.createRun tree run program = .ok next ∧
      FileTree.Holds tree (base ++ ["running"]) (Artifact.fileName .program run) tree.nextId
        (.text (programText program)) next ∧ next.Sound := by
  obtain ⟨next, hnext⟩ := (h.createRun_ok_iff hrun program).mpr ⟨hfits, hfree, hroom⟩
  obtain ⟨_, hholds, hsound⟩ := h.createRun_of_ok hrun hnext
  exact ⟨next, hnext, hholds, hsound⟩

/-- Whatever becomes of it, a run that is to be created changes nothing but its program file. -/
theorem Laid.after_createRun (h : Laid storage tree base) (hrun : '/' ∉ run.toList)
    (program : Program) : FileTree.after (storage.createRun tree run program) = tree ∨
      ∃ contents, FileTree.Holds tree (base ++ ["running"]) (Artifact.fileName .program run)
          tree.nextId contents (FileTree.after (storage.createRun tree run program)) ∧
        (FileTree.after (storage.createRun tree run program)).Sound := by
  have hcreated := h.created hrun program
  generalize storage.createRun tree run program = result at hcreated ⊢
  cases hcreated with
  | stored _ _ _ holds sound => exact .inr ⟨_, holds, sound⟩
  | cut _ _ _ holds sound => exact .inr ⟨_, holds, sound⟩
  | taken => exact .inl rfl
  | unfit => exact .inl rfl

/-- Whatever becomes of it, a state that is to be stored changes nothing but the state file. -/
theorem Laid.after_updateState (h : Laid storage tree base) (hrun : '/' ∉ run.toList)
    (state : RunState) : FileTree.after (storage.updateState tree run state) = tree ∨
      ∃ id contents, FileTree.Holds tree (base ++ ["running"]) (Artifact.fileName .state run) id
          contents (FileTree.after (storage.updateState tree run state)) ∧
        (FileTree.after (storage.updateState tree run state)).Sound := by
  have hrestated := h.restated hrun state
  generalize storage.updateState tree run state = result at hrestated ⊢
  cases hrestated with
  | stored _ _ _ holds sound => exact .inr ⟨_, _, holds, sound⟩
  | cut _ _ _ holds sound => exact .inr ⟨_, _, holds, sound⟩
  | barred => exact .inl rfl
  | locked => exact .inl rfl
  | unfit => exact .inl rfl

theorem Laid.updateState_of_ok (h : Laid storage tree base) (hrun : '/' ∉ run.toList)
    {state : RunState} (hok : storage.updateState tree run state = .ok next) :
    ∃ id, FileTree.Holds tree (base ++ ["running"]) (Artifact.fileName .state run) id
      (.text state.label) next ∧ next.Sound := by
  have hrestated := h.restated hrun state
  rw [hok] at hrestated
  cases hrestated with
  | stored _ _ _ holds sound => exact ⟨_, holds, sound⟩

theorem Laid.updateState_of_willing (h : Laid storage tree base) (hrun : '/' ∉ run.toList)
    (hfits : storage.nameFault .running .state run = none)
    (hplain : tree.get? (spot base .running .state run) ≠ some .directory)
    (hwilling : tree.Willing) (state : RunState) :
    ∃ id next, storage.updateState tree run state = .ok next ∧
      FileTree.Holds tree (base ++ ["running"]) (Artifact.fileName .state run) id
        (.text state.label) next ∧ next.Sound := by
  have hrestated := h.restated hrun state
  generalize storage.updateState tree run state = result at hrestated
  cases hrestated with
  | stored _ _ _ holds sound => exact ⟨_, _, rfl, holds, sound⟩
  | cut _ full => simp [hwilling.roomy] at full
  | barred _ there => exact absurd there hplain
  | locked _ _ locked => simp [hwilling.unlocked] at locked
  | unfit unfit => cases hfits.symm.trans unfit

theorem Laid.openLog_of_fault (h : Laid storage tree base) (hrun : '/' ∉ run.toList)
    {fault : FileFault} (hfault : storage.nameFault .running .log run = some fault) :
    storage.openLog tree run = .error (.file fault) := by
  have hopen : tree.openEmpty (storage.runningFile .log run) = .error fault :=
    FileTree.openEmpty_of_error (h.resolve_of_fault hrun .running .log hfault)
  rw [openLog, hopen]
  rfl

theorem Laid.openLog_of_plain (h : Laid storage tree base) (hrun : '/' ∉ run.toList)
    (hfits : storage.nameFault .running .log run = none)
    (hplain : tree.get? (spot base .running .log run) ≠ some .directory)
    (hmay : tree.MayOpen (spot base .running .log run)) :
    ∃ id next, storage.openLog tree run = .ok (next, ⟨id, 0⟩) ∧
      FileTree.Holds tree (base ++ ["running"]) (Artifact.fileName .log run) id (.text "") next ∧
      next.Sound := by
  obtain ⟨id, next, hopen, hholds, hsound⟩ := FileTree.openEmpty_of_plain h.sound
    (h.resolve_of_fits hrun .running .log hfits) (h.there .running .log)
    (proper_of_nameFault hrun hfits) hplain hmay
  refine ⟨id, next, ?_, hholds, hsound⟩
  rw [openLog, show tree.openEmpty (storage.runningFile .log run) = _ from hopen]
  rfl

theorem Laid.openLog_of_ok (h : Laid storage tree base) (hrun : '/' ∉ run.toList) {file : OpenFile}
    (hok : storage.openLog tree run = .ok (next, file)) :
    FileTree.Holds tree (base ++ ["running"]) (Artifact.fileName .log run) file.id (.text "") next ∧
      file.position = 0 ∧ next.Sound := by
  cases hfits : storage.nameFault .running .log run with
  | some fault =>
    rw [h.openLog_of_fault hrun hfits] at hok
    cases hok
  | none =>
    have hemptied := FileTree.emptied h.sound (h.resolve_of_fits hrun .running .log hfits)
      (h.there .running .log) (proper_of_nameFault hrun hfits)
    rw [show tree.openEmpty (storage.file .running .log run) = _ from opened_of_ok hok] at hemptied
    cases hemptied with
    | opened _ holds sound => exact ⟨holds, rfl, sound⟩

/-! ## Moving to the history -/

theorem names_file (storage : Storage) (tree : FileTree) (hrun : '/' ∉ run.toList) (shelf : Shelf)
    (artifact : Artifact) : ∃ names,
      pathNames (storage.file shelf artifact run) = names ++ [artifact.fileName run] ∧
      tree.walk [] names = tree.walk [] (pathNames (storage.directory shelf artifact)) := by
  obtain ⟨names, hnames, hwalk⟩ := pathNames_joinPath (storage.directory shelf artifact)
    (Artifact.slash_not_mem_fileName hrun artifact)
  refine ⟨names, ?_, hwalk tree⟩
  rw [file_eq, hnames]

theorem not_below_spot (base : Path) (artifact : Artifact) (run : String) :
    ¬ spot base .running artifact run <+: spot base .history artifact run := by
  intro h
  cases (spot_of_below (h.trans (List.prefix_append _ []))).1

/-- A bad path text is reported as such, and not as a file that is missing. -/
theorem badText_ne_notFound {path : String} (hpath : path ≠ "") :
    FileTree.badText path ≠ some .notFound := by
  unfold FileTree.badText
  split
  · simp
  · split <;> simp

theorem file_ne_empty (storage : Storage) (hrun : '/' ∉ run.toList) (shelf : Shelf)
    (artifact : Artifact) : storage.file shelf artifact run ≠ "" := by
  rw [file_eq]
  refine joinPath_ne_empty _ (Artifact.slash_not_mem_fileName hrun artifact) ?_
  exact (FileTree.isDots_eq_false_iff.mp (artifact.isDots_fileName run)).1

theorem badText_of_nameFault {shelf : Shelf} {artifact : Artifact}
    (h : storage.nameFault shelf artifact run = none) :
    FileTree.badText (storage.file shelf artifact run) = none := by
  unfold nameFault at h
  split at h
  · cases h
  · assumption

/-- The directory that a file is in, or the one that it goes to, cannot be reached. -/
theorem rename_of_error (hrun : '/' ∉ run.toList) {artifact : Artifact} {fault : FileFault}
    (hold : FileTree.badText (storage.file .running artifact run) = none)
    (hnew : FileTree.badText (storage.file .history artifact run) = none)
    (hway : tree.walk [] (pathNames (storage.directory .running artifact)) = .error fault ∨
      (∃ up, tree.walk [] (pathNames (storage.directory .running artifact)) = .ok up) ∧
        tree.walk [] (pathNames (storage.directory .history artifact)) = .error fault) :
    tree.rename (storage.file .running artifact run) (storage.file .history artifact run) =
      .error fault := by
  obtain ⟨oldNames, holdNames, holdWalk⟩ := storage.names_file tree hrun .running artifact
  obtain ⟨newNames, hnewNames, hnewWalk⟩ := storage.names_file tree hrun .history artifact
  rw [← holdWalk, ← hnewWalk] at hway
  unfold FileTree.rename
  rcases hway with hway | ⟨⟨up, hup⟩, hway⟩
  · simp only [hold, hnew, holdNames, List.dropLast_concat, hway, bind, Except.bind]
  · simp only [hold, hnew, holdNames, hnewNames, List.dropLast_concat, hup, hway, bind, Except.bind]

/-- The steps of a move up to the look at what is to be moved. -/
theorem rename_of_open (hrun : '/' ∉ run.toList) {artifact : Artifact}
    (holdWay : tree.walk [] (pathNames (storage.directory .running artifact)) =
      .ok (base ++ Shelf.running.names artifact))
    (hnewWay : tree.walk [] (pathNames (storage.directory .history artifact)) =
      .ok (base ++ Shelf.history.names artifact))
    (hold : FileTree.badText (storage.file .running artifact run) = none)
    (hnew : FileTree.badText (storage.file .history artifact run) = none) :
    tree.rename (storage.file .running artifact run) (storage.file .history artifact run) =
      if FileTree.tooLong (artifact.fileName run) then .error .nameTooLong
      else match tree.get? (spot base .running artifact run) with
      | none => .error .notFound
      | some moved =>
        match moved, tree.get? (spot base .history artifact run) with
        | _, none => .ok (tree.moveAll (spot base .running artifact run)
            (spot base .history artifact run))
        | .file _ _, some (.file _ _) => .ok (tree.moveFile (spot base .running artifact run)
            (spot base .history artifact run))
        | .file _ _, some .directory => .error .isDirectory
        | .directory, some (.file _ _) => .error .notDirectory
        | .directory, some .directory =>
          if tree.children (spot base .history artifact run) = [] then
            .ok (tree.moveFile (spot base .running artifact run) (spot base .history artifact run))
          else .error .notEmpty := by
  obtain ⟨oldNames, holdNames, holdWalk⟩ := storage.names_file tree hrun .running artifact
  obtain ⟨newNames, hnewNames, hnewWalk⟩ := storage.names_file tree hrun .history artifact
  rw [holdWay] at holdWalk
  rw [hnewWay] at hnewWalk
  have hne := running_ne_history base artifact artifact run run
  have hstarts := not_below_spot base artifact run
  rw [← List.isPrefixOf_iff_prefix, Bool.not_eq_true] at hstarts
  unfold spot at hne hstarts ⊢
  unfold FileTree.rename
  cases hlong : FileTree.tooLong (artifact.fileName run) with
  | true =>
    simp only [hold, hnew, holdNames, hnewNames, List.dropLast_concat, holdWalk, hnewWalk,
      List.getLastD_concat, artifact.isDots_fileName, hlong, bind, Except.bind, Bool.or_self,
      Bool.false_eq_true, if_false, if_true]
    rfl
  | false =>
    simp only [hold, hnew, holdNames, hnewNames, List.dropLast_concat, holdWalk, hnewWalk,
      List.getLastD_concat, artifact.isDots_fileName, hlong, bind, Except.bind, Bool.or_self,
      Bool.false_eq_true, if_false, hne, hstarts, FileTree.moveFile]
    rfl

/-- A path that is no path at all is reported, and not taken for one of a missing file. -/
theorem rename_of_badText (tree : FileTree) (hrun : '/' ∉ run.toList) {artifact : Artifact}
    (hbad : ∃ shelf, FileTree.badText (storage.file shelf artifact run) ≠ none) :
    ∃ fault, fault ≠ .notFound ∧ tree.rename (storage.file .running artifact run)
      (storage.file .history artifact run) = .error fault := by
  have hkind : ∀ shelf fault, FileTree.badText (storage.file shelf artifact run) = some fault →
      fault ≠ .notFound := by
    rintro shelf fault hbad rfl
    exact badText_ne_notFound (storage.file_ne_empty hrun shelf artifact) hbad
  cases hold : FileTree.badText (storage.file .running artifact run) with
  | some fault =>
    refine ⟨fault, hkind _ _ hold, ?_⟩
    unfold FileTree.rename
    simp only [hold]
    rfl
  | none =>
    cases hnew : FileTree.badText (storage.file .history artifact run) with
    | some fault =>
      refine ⟨fault, hkind _ _ hnew, ?_⟩
      unfold FileTree.rename
      simp only [hold, hnew]
      rfl
    | none =>
      obtain ⟨shelf, hshelf⟩ := hbad
      cases shelf with
      | running => exact absurd hold hshelf
      | history => exact absurd hnew hshelf

theorem archive_eq (storage : Storage) (tree : FileTree) (run : String) (artifact : Artifact) :
    storage.archive tree run artifact = match tree.rename
        (storage.file .running artifact run) (storage.file .history artifact run) with
      | .ok moved => (moved, none)
      | .error .notFound => (tree, none)
      | .error fault => (tree, some fault) := rfl

end Laid

/-- A storage whose directories have just been made. -/
def bareTree : FileTree where
  entries := [(["running"], .directory), (["history"], .directory),
    (["history", "status"], .directory), (["history", "logs"], .directory)]
  nextId := 0

theorem laid_bareTree : Laid ⟨""⟩ bareTree [] := by
  refine ⟨by decide, rfl, fun shelf artifact => ?_⟩
  cases shelf <;> cases artifact <;> decide

theorem fits_oak : Fits ⟨""⟩ "oak@2023-11-14T22:13:20Z" := by
  intro shelf artifact
  cases shelf <;> cases artifact <;> decide

end Storage
end DryKiln
