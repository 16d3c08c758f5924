-- A run as a row of single operations on files. Done one after the other they are what the launch
-- and the effects of the run do to its files; in a tidy storage each of them keeps it tidy.
import DryKiln.Proofs.Run.Outcome

namespace DryKiln

-- what these do is known by their laws
attribute [local irreducible] Storage.archive FileTree.create FileTree.openEmpty

/-- One operation on the files of a run. -/
inductive FileStep where
  /-- The program file is created, and is empty then. -/
  | createProgram
  /-- The state file is emptied, or created. -/
  | openState
  /-- The file that was created or emptied last gets its text. -/
  | fill (text : String)
  | openLog
  | append (text : String)
  | move (artifact : Artifact)
deriving DecidableEq

namespace FileStep

def isMove : FileStep → Bool
  | move _ => true
  | _ => false

/-- The operations of a launch. -/
def ofLaunch (program : Program) : List FileStep :=
  [createProgram, fill (Storage.programText program), openState, fill RunState.pending.label,
    openLog, append LogWriter.header]

/-- The moves of all files of a run. -/
def moves : List FileStep := Artifact.all.map move

/-- The operations of an effect. -/
def ofEffect : RunEffect → List FileStep
  | .store state => [openState, fill state.label]
  | .write text => [append text]
  | .archive => moves
  | .request _ | .command _ | .abandon => []

/-- The operations of a run, from its launch on. -/
def ofRun (program : Program) (effects : List RunEffect) : List FileStep :=
  ofLaunch program ++ effects.flatMap ofEffect

end FileStep

/-- The files while a run is at work on them. -/
structure Hands where
  tree : FileTree
  /-- The file that gets its text next. -/
  hand : Option OpenFile
  log : Option OpenFile

namespace Hands

/-- What an operation does. One that has a fault does nothing, and a file that could not be opened
gets no text. -/
def step (storage : Storage) (name : String) (hands : Hands) : FileStep → Hands
  | .createProgram =>
    match hands.tree.create (storage.runningFile .program name) with
    | .ok (tree, file) => { hands with tree, hand := some file }
    | .error _ => { hands with hand := none }
  | .openState =>
    match hands.tree.openEmpty (storage.runningFile .state name) with
    | .ok (tree, file) => { hands with tree, hand := some file }
    | .error _ => { hands with hand := none }
  | .fill text =>
    match hands.hand with
    | some file => { hands with tree := (hands.tree.tryWrite file text).1, hand := none }
    | none => hands
  | .openLog =>
    match hands.tree.openEmpty (storage.runningFile .log name) with
    | .ok (tree, file) => { hands with tree, log := some file }
    | .error _ => { hands with log := none }
  | .append text =>
    match hands.log with
    | some file =>
      let (tree, file) := hands.tree.tryWrite file text
      { hands with tree, log := some file }
    | none => hands
  | .move artifact => { hands with tree := (storage.archive hands.tree name artifact).1 }

def steps (storage : Storage) (name : String) (hands : Hands) (row : List FileStep) : Hands :=
  row.foldl (step storage name) hands

theorem steps_append (storage : Storage) (name : String) (hands : Hands)
    (first second : List FileStep) : hands.steps storage name (first ++ second) =
      (hands.steps storage name first).steps storage name second :=
  List.foldl_append

variable {storage : Storage} {name : String} {hands : Hands} {files : FileTree × OpenFile}

/-! ## The rows are what the run does -/

/-- The files of a run in the hands, where nothing waits for its text. -/
def holding (files : FileTree × OpenFile) : Hands := ⟨files.1, none, files.2⟩

theorem steps_store (files : FileTree × OpenFile) (state : RunState) :
    (holding files).steps storage name (FileStep.ofEffect (.store state)) =
      holding (Run.store storage name files (.store state)) := by
  rw [Run.store_store]
  simp only [steps, FileStep.ofEffect, List.foldl_cons, List.foldl_nil, step, holding,
    Storage.updateState, FileTree.writeText, FileTree.write, FileTree.tryWrite]
  cases files.1.openEmpty (storage.runningFile .state name) with
  | error fault => rfl
  | ok opened =>
    dsimp only
    split <;> rfl

theorem steps_archive (files : FileTree × OpenFile) :
    (holding files).steps storage name (FileStep.ofEffect .archive) =
      holding (Run.store storage name files .archive) := rfl

theorem steps_effect (files : FileTree × OpenFile) (effect : RunEffect) :
    (holding files).steps storage name (FileStep.ofEffect effect) =
      holding (Run.store storage name files effect) := by
  cases effect with
  | store state => exact steps_store files state
  | archive => exact steps_archive files
  | _ => rfl

theorem steps_effects (files : FileTree × OpenFile) (effects : List RunEffect) :
    (holding files).steps storage name (effects.flatMap FileStep.ofEffect) =
      holding (effects.foldl (Run.store storage name) files) := by
  induction effects generalizing files with
  | nil => rfl
  | cons effect rest ih =>
    rw [List.flatMap_cons, steps_append, steps_effect, ih, List.foldl_cons]

theorem steps_launch {tree : FileTree} {program : Program} {settings : RunSettings} {now : Int}
    {run : Run} (h : Run.launch storage tree program settings now = (files.1, .ok (run, files.2))) :
    (⟨tree, none, none⟩ : Hands).steps storage run.name (FileStep.ofLaunch program) =
      holding files := by
  obtain ⟨created, pending, opened, hcreate, hpending, hopen, hfiles⟩ :=
    (Run.launched_of_ok h).calls
  obtain ⟨_, _, hnew, hprogram, rfl⟩ := Storage.created_of_ok hcreate
  obtain ⟨_, _, hempty, hstate, rfl⟩ := Storage.emptied_of_ok hpending
  have hlog := Storage.opened_of_ok hopen
  simp only [steps, FileStep.ofLaunch, List.foldl_cons, List.foldl_nil, step, hnew, hempty, hlog,
    FileTree.tryWrite_of_write hprogram, FileTree.tryWrite_of_write hstate,
    FileTree.tryWrite_of_write hfiles, holding]

/-- The row of a run is what its launch and its effects do to its files. -/
theorem steps_ofRun {tree : FileTree} {program : Program} {settings : RunSettings} {now : Int}
    {run : Run} (h : Run.launch storage tree program settings now = (files.1, .ok (run, files.2)))
    (effects : List RunEffect) : (⟨tree, none, none⟩ : Hands).steps storage run.name
      (FileStep.ofRun program effects) =
        holding (effects.foldl (Run.store storage run.name) files) := by
  rw [FileStep.ofRun, steps_append, steps_launch h, steps_effects]

end Hands

/-! ## The rows in a tidy storage -/

namespace Storage

variable {storage : Storage} {tree next : FileTree} {base : Path} {name : String}

/-- A storage in which nothing is in the way of the files of a run, and everything may be
written. -/
structure Roomy (storage : Storage) (tree : FileTree) (base : Path) (name : String) : Prop where
  tidy : Tidy storage tree base
  willing : tree.Willing
  slashless : '/' ∉ name.toList
  fits : Fits storage name

theorem Roomy.congr (h : Roomy storage tree base name) (hsteady : FileTree.Steady tree next) :
    Roomy storage next base name :=
  ⟨h.tidy.congr hsteady, h.willing.congr hsteady, h.slashless, h.fits⟩

theorem Roomy.create (h : Roomy storage tree base name)
    (hfree : tree.get? (spot base .running .program name) = none) :
    ∃ created file, tree.create (storage.runningFile .program name) = .ok (created, file) ∧
      FileTree.Holds tree (base ++ ["running"]) (Artifact.fileName .program name) file.id (.text "")
        created ∧ created.Sound := by
  have hresolve := h.tidy.laid.resolve_of_fits h.slashless .running .program (h.fits _ _)
  obtain ⟨created, hcreate, hholds, hsound⟩ := FileTree.create_of_free h.tidy.laid.sound hresolve
    (h.tidy.laid.there .running .program)
    (proper_of_nameFault h.slashless (h.fits .running .program)) hfree
  exact ⟨created, _, hcreate, hholds, hsound⟩

theorem Roomy.create_of_taken (h : Roomy storage tree base name) {entry : Entry}
    (htaken : tree.get? (spot base .running .program name) = some entry) :
    tree.create (storage.runningFile .program name) = .error .alreadyExists :=
  FileTree.create_of_taken
    (h.tidy.laid.resolve_of_fits h.slashless .running .program (h.fits _ _)) htaken

theorem Roomy.openEmpty (h : Roomy storage tree base name) (artifact : Artifact) :
    ∃ opened file, tree.openEmpty (storage.runningFile artifact name) = .ok (opened, file) ∧
      FileTree.Holds tree (base ++ ["running"]) (artifact.fileName name) file.id (.text "")
        opened ∧ opened.Sound := by
  have hresolve := h.tidy.laid.resolve_of_fits h.slashless .running artifact (h.fits _ _)
  obtain ⟨id, opened, hopen, hholds, hsound⟩ := FileTree.openEmpty_of_plain h.tidy.laid.sound
    hresolve (h.tidy.laid.there .running artifact)
    (proper_of_nameFault h.slashless (h.fits .running artifact)) (h.tidy.plain _ _ _)
    (h.willing.mayOpen _)
  exact ⟨opened, ⟨id, 0⟩, hopen, hholds, hsound⟩

theorem Listed.write {shelf : Shelf} (h : Listed tree base shelf name) (file : OpenFile)
    (text : String) : Listed (tree.tryWrite file text).1 base shelf name := by
  obtain ⟨hname, id, c, hget⟩ := h
  obtain ⟨d, hstill⟩ := FileTree.get?_tryWrite_of_file hget file text
  exact ⟨hname, id, d, hstill⟩

theorem Listed.holds {artifact : Artifact} {id : Nat} {c : Contents}
    (h : Listed tree base .running name) (hne : artifact ≠ .program)
    (hholds : FileTree.Holds tree (base ++ ["running"]) (artifact.fileName name) id c next) :
    Listed next base .running name := by
  obtain ⟨hname, id, c, hget⟩ := h
  exact ⟨hname, id, c,
    (hholds.elsewhere (spot_ne_of_artifact hne.symm .running .running name name)).trans hget⟩

end Storage

namespace Hands

variable {storage : Storage} {base : Path} {name : String} {hands : Hands}

theorem steady_step (h : Storage.Roomy storage hands.tree base name) (operation : FileStep) :
    FileTree.Steady hands.tree (hands.step storage name operation).tree := by
  have hsound := h.tidy.laid.sound
  cases operation with
  | createProgram =>
    cases hget : hands.tree.get? (spot base .running .program name) with
    | none =>
      obtain ⟨created, file, hcreate, hholds, hs⟩ := h.create hget
      simp only [step, hcreate]
      exact hholds.steady hs
    | some entry =>
      simp only [step, h.create_of_taken hget]
      exact hsound.steady
  | openState =>
    obtain ⟨opened, file, hopen, hholds, hs⟩ := h.openEmpty .state
    simp only [step, hopen]
    exact hholds.steady hs
  | fill text =>
    cases hhand : hands.hand with
    | none =>
      simp only [step, hhand]
      exact hsound.steady
    | some file =>
      simp only [step, hhand]
      exact hsound.steady_tryWrite file text
  | openLog =>
    obtain ⟨opened, file, hopen, hholds, hs⟩ := h.openEmpty .log
    simp only [step, hopen]
    exact hholds.steady hs
  | append text =>
    cases hlog : hands.log with
    | none =>
      simp only [step, hlog]
      exact hsound.steady
    | some file =>
      simp only [step, hlog]
      exact hsound.steady_tryWrite file text
  | move artifact => exact (h.tidy.laid.archive h.slashless artifact (h.tidy.plain _ _ _)).2.1

theorem roomy_steps (h : Storage.Roomy storage hands.tree base name) (row : List FileStep) :
    Storage.Roomy storage (hands.steps storage name row).tree base name := by
  induction row generalizing hands with
  | nil => exact h
  | cons operation rest ih => exact ih (h.congr (steady_step h operation))

/-- Only a move takes the program file away. -/
theorem listed_step (h : Storage.Listed hands.tree base .running name)
    (hroomy : Storage.Roomy storage hands.tree base name) {operation : FileStep}
    (hmove : operation.isMove = false) :
    Storage.Listed (hands.step storage name operation).tree base .running name := by
  cases operation with
  | createProgram =>
    obtain ⟨hname, id, c, hget⟩ := h
    simp only [step, hroomy.create_of_taken hget]
    exact ⟨hname, id, c, hget⟩
  | openState =>
    obtain ⟨opened, file, hopen, hholds, hs⟩ := hroomy.openEmpty .state
    simp only [step, hopen]
    exact h.holds (by decide) hholds
  | fill text =>
    cases hhand : hands.hand with
    | none => simpa only [step, hhand] using h
    | some file => simpa only [step, hhand] using h.write file text
  | openLog =>
    obtain ⟨opened, file, hopen, hholds, hs⟩ := hroomy.openEmpty .log
    simp only [step, hopen]
    exact h.holds (by decide) hholds
  | append text =>
    cases hlog : hands.log with
    | none => simpa only [step, hlog] using h
    | some file => simpa only [step, hlog] using h.write file text
  | move artifact => cases hmove

theorem listed_steps (h : Storage.Listed hands.tree base .running name)
    (hroomy : Storage.Roomy storage hands.tree base name) {row : List FileStep}
    (hmoves : ∀ operation ∈ row, operation.isMove = false) :
    Storage.Listed (hands.steps storage name row).tree base .running name := by
  induction row generalizing hands with
  | nil => exact h
  | cons operation rest ih =>
    rw [List.forall_mem_cons] at hmoves
    exact ih (listed_step h hroomy hmoves.1) (hroomy.congr (steady_step hroomy operation)) hmoves.2

end Hands
end DryKiln
