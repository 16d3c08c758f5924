-- What is left of a run that is over. Its files are followed from the launch through all it wants
-- done: they lie with the runs that are going on until the run goes into the history, and then
-- the history tells the state that the outcome tells.
import DryKiln.Proofs.Control.Shutdown
import DryKiln.Proofs.Run.Record
import DryKiln.Proofs.Time.Written

namespace DryKiln

-- the operations of the storage are known by their laws
attribute [local irreducible] Storage.createRun Storage.updateState Storage.openLog
  Storage.moveToHistory

/-! ## Names of runs -/

theorem runName_toList (program : String) (started : Int) :
    (runName program started).toList = program.toList ++
      '@' :: (Moment.ofSeconds (if calendarRange started then started else 0)).text := by
  simp [runName]

theorem slash_not_mem_runName {program : String} (h : '/' ∉ program.toList) (started : Int) :
    '/' ∉ (runName program started).toList := by
  have htext (m : Moment) : '/' ∉ m.text := fun hmem => absurd (Moment.mem_text hmem) (by decide)
  simp [runName_toList, h, htext]

theorem runName_ne_empty (program : String) (started : Int) : runName program started ≠ "" := by
  intro hempty
  have hname := runName_toList program started
  simp [hempty] at hname

/-! ## The files of a run -/

theorem Run.store_store (storage : Storage) (name : String) (files : FileTree × OpenFile)
    (state : RunState) : Run.store storage name files (.store state) =
      (FileTree.after (storage.updateState files.1 name state), files.2) := rfl

namespace Storage

/-- All files of a run lie on a shelf, with this state in one of them, and the log is the open file;
in the history they are alone. -/
structure OnShelf (storage : Storage) (base : Path) (shelf : Shelf) (run : String)
    (files : FileTree × OpenFile) (state : RunState) : Prop where
  laid : Laid storage files.1 base
  program : ∃ id c, files.1.get? (spot base shelf .program run) = some (.file id c)
  state : ∃ id, files.1.get? (spot base shelf .state run) = some (.file id (.text state.label))
  log : ∃ c, files.1.get? (spot base shelf .log run) = some (.file files.2.id c)
  clear : shelf = .history → ∀ artifact, files.1.get? (spot base .running artifact run) = none

section OnShelf

variable {storage : Storage} {base : Path} {shelf : Shelf} {run : String}
  {files : FileTree × OpenFile} {state : RunState}

/-- Only the log changes when something is written to it. -/
theorem OnShelf.get?_tryWrite (h : OnShelf storage base shelf run files state) (text : String)
    {p : Path} (hp : p ≠ spot base shelf .log run) :
    (files.1.tryWrite files.2 text).1.get? p = files.1.get? p := by
  obtain ⟨c, hlog⟩ := h.log
  refine FileTree.get?_tryWrite_of_ne fun c' hget => hp ?_
  exact h.laid.sound.identified _ _ _ _ _ hget hlog

theorem OnShelf.write (h : OnShelf storage base shelf run files state) (text : String) :
    OnShelf storage base shelf run (files.1.tryWrite files.2 text) state := by
  have hother : ∀ artifact, artifact ≠ .log →
      (files.1.tryWrite files.2 text).1.get? (spot base shelf artifact run) =
        files.1.get? (spot base shelf artifact run) :=
    fun artifact hne => h.get?_tryWrite text (spot_ne_of_artifact hne _ _ _ _)
  refine ⟨h.laid.congr (h.laid.sound.steady_tryWrite files.2 text), ?_, ?_, ?_, ?_⟩
  · rw [hother .program (by decide)]
    exact h.program
  · rw [hother .state (by decide)]
    exact h.state
  · obtain ⟨c, hlog⟩ := h.log
    rw [FileTree.tryWrite_id]
    exact FileTree.get?_tryWrite_of_file hlog files.2 text
  · intro hshelf artifact
    rw [h.get?_tryWrite text, h.clear hshelf artifact]
    rw [hshelf]
    exact running_ne_history base artifact .log run run

/-- A call of the storage has no fault. -/
def Succeeds (storage : Storage) (run : String) (files : FileTree × OpenFile) : RunEffect → Prop
  | .store state => ∃ tree, storage.updateState files.1 run state = .ok tree
  | .archive => (storage.moveToHistory files.1 run).2 = .ok ()
  | _ => True

/-- No call of the storage has a fault while a run gets done what it wants. -/
def Faultless (storage : Storage) (run : String) : FileTree × OpenFile → List RunEffect → Prop
  | _, [] => True
  | files, effect :: rest => Succeeds storage run files effect ∧
      Faultless storage run (Run.store storage run files effect) rest

theorem faultless_append (storage : Storage) (run : String) (files : FileTree × OpenFile)
    (first second : List RunEffect) : Faultless storage run files (first ++ second) ↔
      Faultless storage run files first ∧
        Faultless storage run (first.foldl (Run.store storage run) files) second := by
  induction first generalizing files with
  | nil => simp [Faultless]
  | cons effect rest ih => simp [Faultless, ih, and_assoc]

theorem OnShelf.quiet (h : OnShelf storage base shelf run files state) {effects : List RunEffect}
    (hquiet : ∀ effect ∈ effects, ¬ effect.isCall = true) :
    OnShelf storage base shelf run (effects.foldl (Run.store storage run) files) state := by
  induction effects generalizing files with
  | nil => exact h
  | cons effect rest ih =>
    rw [List.forall_mem_cons] at hquiet
    refine ih ?_ hquiet.2
    cases effect with
    | write text => exact h.write text
    | store state => exact absurd rfl hquiet.1
    | archive => exact absurd rfl hquiet.1
    | _ => exact h

theorem OnShelf.stored (h : OnShelf storage base .running run files state)
    (hrun : '/' ∉ run.toList) {next : RunState} (hok : Succeeds storage run files (.store next)) :
    OnShelf storage base .running run (Run.store storage run files (.store next)) next := by
  obtain ⟨tree, htree⟩ := hok
  obtain ⟨id, hholds, hsound⟩ := h.laid.updateState_of_ok hrun htree
  have hstore : Run.store storage run files (.store next) = (tree, files.2) := by
    rw [Run.store_store, htree]
    rfl
  have hother : ∀ artifact, artifact ≠ .state → tree.get? (spot base .running artifact run) =
      files.1.get? (spot base .running artifact run) :=
    fun artifact hne => hholds.elsewhere (spot_ne_of_artifact hne .running .running run run)
  rw [hstore]
  refine ⟨h.laid.congr (hholds.steady hsound), ?_, ⟨id, hholds.here⟩, ?_, nofun⟩
  · rw [hother .program (by decide)]
    exact h.program
  · rw [hother .log (by decide)]
    exact h.log

theorem OnShelf.archived (h : OnShelf storage base .running run files state)
    (hrun : '/' ∉ run.toList) (hok : Succeeds storage run files .archive) :
    OnShelf storage base .history run (Run.store storage run files .archive) state ∧
      Fits storage run := by
  obtain ⟨id, c, hprogram⟩ := h.program
  obtain ⟨id', hstate⟩ := h.state
  obtain ⟨c', hlog⟩ := h.log
  have hplain : ∀ artifact, files.1.get? (spot base .running artifact run) ≠ some .directory := by
    intro artifact
    cases artifact <;> simp [hprogram, hstate, hlog]
  obtain ⟨_, hsteady, _⟩ := h.laid.moveToHistory hrun hplain
  obtain ⟨hgone, hfits⟩ := h.laid.moveToHistory_of_ok hrun hplain hok
  refine ⟨⟨h.laid.congr hsteady, ⟨id, c, ?_⟩, ⟨id', ?_⟩, ⟨c', ?_⟩, ?_⟩, hfits⟩
  · exact (hgone.history .program (by decide)).trans (by rw [hprogram]; rfl)
  · exact (hgone.history .state (by decide)).trans (by rw [hstate]; rfl)
  · exact (hgone.history .log (by decide)).trans (by rw [hlog]; rfl)
  · exact fun _ artifact => hgone.running artifact artifact.mem_all

/-- While a run is going on, its files stay where they are. -/
theorem OnShelf.ready (h : OnShelf storage base .running run files state)
    (hrun : '/' ∉ run.toList) {effects : List RunEffect} {first last : RunState}
    (hcalls : callsIn effects = [.store first, .store last])
    (hok : Faultless storage run files effects) :
    OnShelf storage base .running run (effects.foldl (Run.store storage run) files) last := by
  obtain ⟨opening, rest, rfl, hopening, -, hrest⟩ := List.filter_eq_cons_iff.mp hcalls
  obtain ⟨middle, closing, rfl, hmiddle, -, hrest⟩ := List.filter_eq_cons_iff.mp hrest
  simp only [faultless_append, Faultless] at hok
  obtain ⟨-, hfirst, -, hlast, -⟩ := hok
  simp only [List.foldl_append, List.foldl_cons]
  have hstored := ((h.quiet hopening).stored hrun hfirst).quiet hmiddle
  exact (hstored.stored hrun hlast).quiet (List.filter_eq_nil_iff.mp hrest)

theorem split_at_archive {effects : List RunEffect} (calls : List RunEffect)
    (hcalls : callsIn effects = calls ++ [.archive]) :
    ∃ front back, effects = front ++ .archive :: back ∧ callsIn front = calls ∧
      callsIn back = [] := by
  obtain ⟨front, rest, rfl, hfront, hrest⟩ := List.filter_eq_append_iff.mp hcalls
  obtain ⟨closing, back, rfl, hclosing, -, hback⟩ := List.filter_eq_cons_iff.mp hrest
  refine ⟨front ++ closing, back, by simp, ?_, hback⟩
  rw [callsIn_append, show callsIn front = calls from hfront,
    show callsIn closing = [] from List.filter_eq_nil_iff.mpr hclosing, List.append_nil]

/-- What a run does that is over, if no call has a fault, brings its files into the history. -/
theorem OnShelf.concluded (h : OnShelf storage base .running run files state)
    (hrun : '/' ∉ run.toList) {effects : List RunEffect} {first last : RunState}
    (hcalls : callsIn effects = [.store first, .store last, .archive])
    (hok : Faultless storage run files effects) :
    OnShelf storage base .history run (effects.foldl (Run.store storage run) files) last ∧
      Fits storage run := by
  obtain ⟨front, back, rfl, hfront, hback⟩ :=
    split_at_archive [.store first, .store last] hcalls
  simp only [faultless_append, Faultless] at hok
  obtain ⟨hready, harchive, -⟩ := hok
  simp only [List.foldl_append, List.foldl_cons]
  obtain ⟨hdone, hfits⟩ := (h.ready hrun hfront hready).archived hrun harchive
  exact ⟨hdone.quiet (List.filter_eq_nil_iff.mp hback), hfits⟩

end OnShelf

end Storage

namespace Run

/-! ## Launch -/

/-- A run that has been launched has been created, stored as pending and given a log that has taken
its header, in this order. -/
structure Launched (storage : Storage) (tree : FileTree) (program : Program)
    (settings : RunSettings) (now : Int) (run : Run) (files : FileTree × OpenFile) : Prop where
  prepared : run = .prepare (runName program.name now) program settings now
  calls : ∃ created pending opened,
    storage.createRun tree run.name program = .ok created ∧
    storage.updateState created run.name .pending = .ok pending ∧
    storage.openLog pending run.name = .ok opened ∧
    opened.1.write opened.2 LogWriter.header = .ok files

variable {storage : Storage} {tree : FileTree} {base : Path} {program : Program}
  {settings : RunSettings} {now : Int} {run : Run} {files : FileTree × OpenFile}

theorem launched_of_ok
    (h : launch storage tree program settings now = (files.1, .ok (run, files.2))) :
    Launched storage tree program settings now run files := by
  have hlaunching := launching storage tree program settings now
  obtain ⟨left, logFile⟩ := files
  rw [h] at hlaunching
  cases hlaunching with
  | launched create state log header => exact ⟨rfl, _, _, _, create, state, log, header⟩

theorem Launched.onShelf (h : Launched storage tree program settings now run files)
    (hlaid : Storage.Laid storage tree base) (hname : '/' ∉ run.name.toList) :
    Storage.OnShelf storage base .running run.name files .pending ∧
      FileTree.Steady tree files.1 := by
  obtain ⟨created, pending, ⟨opened, file⟩, hcreate, hpending, hopen, hwrite⟩ := h.calls
  obtain rfl := FileTree.tryWrite_of_write hwrite
  obtain ⟨_, hcreated, hcreatedSound⟩ := hlaid.createRun_of_ok hname hcreate
  have hlaidCreated := hlaid.congr (hcreated.steady hcreatedSound)
  obtain ⟨id, hstored, hstoredSound⟩ := hlaidCreated.updateState_of_ok hname hpending
  have hlaidPending := hlaidCreated.congr (hstored.steady hstoredSound)
  obtain ⟨hopened, _, hopenedSound⟩ := hlaidPending.openLog_of_ok hname hopen
  have hlaidOpened := hlaidPending.congr (hopened.steady hopenedSound)
  have hfresh : Storage.OnShelf storage base .running run.name (opened, file) .pending := by
    have hne : ∀ artifact artifact', artifact ≠ artifact' →
        spot base .running artifact run.name ≠ spot base .running artifact' run.name :=
      fun artifact artifact' hne => spot_ne_of_artifact hne _ _ _ _
    refine ⟨hlaidOpened, ⟨tree.nextId, .text (Storage.programText program), ?_⟩, ⟨id, ?_⟩,
      ⟨.text "", hopened.here⟩, nofun⟩
    · exact (hopened.elsewhere (hne .program .log (by decide))).trans
        ((hstored.elsewhere (hne .program .state (by decide))).trans hcreated.here)
    · exact (hopened.elsewhere (hne .state .log (by decide))).trans hstored.here
  have hsteady := ((hcreated.steady hcreatedSound).trans (hstored.steady hstoredSound)).trans
    (hopened.steady hopenedSound)
  exact ⟨hfresh.write LogWriter.header,
    hsteady.trans (hlaidOpened.sound.steady_tryWrite file LogWriter.header)⟩

/-! ## Runs without faults -/

/-- In a tidy storage in which everything may be written, a run whose name can be held can be
launched if no run of this name is going on. -/
theorem launch_of_tidy (h : Storage.Tidy storage tree base) (hwilling : tree.Willing)
    (hslash : '/' ∉ program.name.toList)
    (hfits : Storage.Fits storage (runName program.name now))
    (hfree : tree.get? (spot base .running .program (runName program.name now)) = none)
    (settings : RunSettings) : ∃ (run : Run) (files : FileTree × OpenFile),
      launch storage tree program settings now = (files.1, .ok (run, files.2)) := by
  have hname := slash_not_mem_runName hslash now
  obtain ⟨created, hcreate, hholds, hsound⟩ :=
    h.laid.createRun_of_free hname (hfits _ _) hfree (by simp [hwilling.roomy]) program
  have hcreated := h.congr (hholds.steady hsound)
  have hstill := hwilling.congr (hholds.steady hsound)
  obtain ⟨_, pending, hpending, hholds, hsound⟩ :=
    hcreated.laid.updateState_of_willing hname (hfits _ _) (hcreated.plain _ _ _) hstill .pending
  have hstored := hcreated.congr (hholds.steady hsound)
  have hlast := hstill.congr (hholds.steady hsound)
  obtain ⟨id, opened, hopen, hholds, hsound⟩ := hstored.laid.openLog_of_plain hname (hfits _ _)
    (hstored.plain _ _ _) (hlast.mayOpen _)
  have hwrite : opened.write ⟨id, 0⟩ LogWriter.header =
      .ok (opened.overwrite ⟨id, 0⟩ LogWriter.header) :=
    if_pos ((hlast.congr (hholds.steady hsound)).hasRoom _)
  refine ⟨.prepare (runName program.name now) program settings now,
    opened.overwrite ⟨id, 0⟩ LogWriter.header, ?_⟩
  unfold launch LogWriter.openOn
  simp only [hcreate, hpending, hopen, hwrite]
  rfl

/-- In a tidy storage in which everything may be written, no run whose name can be held meets a
fault. -/
theorem faultless_of_tidy {name : String} (hname : '/' ∉ name.toList)
    (hfits : Storage.Fits storage name) (effects : List RunEffect)
    (h : Storage.Tidy storage files.1 base) (hwilling : files.1.Willing) :
    Storage.Faultless storage name files effects := by
  induction effects generalizing files with
  | nil => trivial
  | cons effect rest ih =>
    cases effect with
    | store state =>
      obtain ⟨_, next, hnext, hholds, hsound⟩ :=
        h.laid.updateState_of_willing hname (hfits _ _) (h.plain _ _ _) hwilling state
      have hstore : store storage name files (.store state) = (next, files.2) := by
        rw [store_store, hnext]
        rfl
      have hsteady := hholds.steady hsound
      exact ⟨⟨next, hnext⟩, ih (hstore ▸ h.congr hsteady) (hstore ▸ hwilling.congr hsteady)⟩
    | archive =>
      have hsteady := (h.laid.moveToHistory hname fun artifact => h.plain _ _ _).2.1
      exact ⟨(h.moveToHistory_ok_iff hname).mpr hfits, ih (h.congr hsteady)
        (hwilling.congr hsteady)⟩
    | write text =>
      have hsteady := h.laid.sound.steady_tryWrite files.2 text
      exact ⟨trivial, ih (h.congr hsteady) (hwilling.congr hsteady)⟩
    | _ => exact ⟨trivial, ih h hwilling⟩

/-! ## The law -/

/-- A run is created, stored as pending and given a log, and then, whatever it hears and in whatever
order, it is stored as running, stored in its last state, and moved to the history, once each. The
last state is that of the outcome and says what has become of the program: a request to stop counts
only if the program is not over. If the storage has no fault, then nothing of the run is left with
the runs that are going on, and the history tells the state that the outcome tells. -/
theorem outcome_is_what_is_stored
    (launched : launch storage tree program settings now = (files.1, .ok (run, files.2)))
    (events : List (RunEvent × Int × SinkAnswers)) :
    let last := (run.hear events).1
    let effects := (run.hear events).2
    run.name = runName program.name now ∧
      Launched storage tree program settings now run files ∧
      (∃ state, callsIn effects <+: [.store .running, .store state, .archive]) ∧
      ∀ outcome, last.outcome? = some outcome →
        callsIn effects = [.store .running, .store outcome.state, .archive] ∧
        outcome.name = run.name ∧
        outcome.status = last.controller.status ∧
        (outcome.state = .completed ↔ last.controller.stage = .idle) ∧
        (outcome.state = .failed ↔ last.controller.stage = .failed) ∧
        (outcome.state = .canceled ↔ run.StoppedEarly events) ∧
        (outcome.state = .completed ∨ outcome.state = .failed ∨ outcome.state = .canceled) ∧
        ∀ base, '/' ∉ program.name.toList → Storage.Laid storage tree base →
          Storage.Faultless storage run.name files effects →
          let left := (effects.foldl (store storage run.name) files).1
          (∀ artifact, left.get? (spot base .running artifact run.name) = none) ∧
            Storage.Tells storage left run.name outcome.state := by
  intro last effects
  have hlaunched := launched_of_ok launched
  have hname : run.name = runName program.name now := by rw [hlaunched.prepared]; rfl
  have hprepared : run.phase = .prepared := by rw [hlaunched.prepared]; rfl
  obtain ⟨hrecorded, hsame⟩ := recorded_hear hprepared events
  refine ⟨hname, hlaunched, hrecorded.calls, ?_⟩
  intro outcome houtcome
  obtain ⟨hphase, houtcome⟩ := phase_of_outcome houtcome
  unfold Recorded at hrecorded
  rw [hphase] at hrecorded
  obtain ⟨hcalls, hstatus, hends, hstopped⟩ := hrecorded
  rw [houtcome]
  refine ⟨hcalls, hsame, hstatus, hends.completed, hends.failed, hstopped, ?_, ?_⟩
  · exact hends.cases
  · intro base hslash hlaid hfaultless left
    have hrun : '/' ∉ run.name.toList := hname ▸ slash_not_mem_runName hslash now
    have hempty : run.name ≠ "" := hname ▸ runName_ne_empty program.name now
    obtain ⟨hdone, hfits⟩ :=
      (hlaunched.onShelf hlaid hrun).1.concluded hrun hcalls hfaultless
    obtain ⟨id, c, hprogram⟩ := hdone.program
    obtain ⟨id', hstate⟩ := hdone.state
    exact ⟨hdone.clear rfl, hdone.laid.tells hrun hempty (hfits .history) hprogram hstate⟩

/-- A rest that is stopped after its second tick, with a log that takes nothing. -/
def stoppedRest : List (RunEvent × Int × SinkAnswers) :=
  [(.begin, 1700000000, .all false), (.tick, 1700000001, .all false),
    (.tick, 1700000002, .all false), (.stop, 1700000002, .all false),
    (.tick, 1700000003, .all false)]

theorem stopped_rest_is_told_as_canceled :
    let name := "oak@2023-11-14T22:13:20Z"
    ∃ (run : Run) (files : FileTree × OpenFile),
      launch ⟨""⟩ Storage.bareTree Controller.oneHeatedRest ⟨1000, 60, 60⟩ 1700000000 =
        (files.1, .ok (run, files.2)) ∧
      (∃ status, (run.hear stoppedRest).1.outcome? = some ⟨name, .canceled, status⟩) ∧
      callsIn (run.hear stoppedRest).2 = [.store .running, .store .canceled, .archive] ∧
      Storage.Tells ⟨""⟩ ((run.hear stoppedRest).2.foldl (store ⟨""⟩ run.name) files).1 name
        .canceled := by
  intro name
  have htidy : Storage.Tidy ⟨""⟩ Storage.bareTree [] := Storage.laid_bareTree.tidy (by decide)
  have hname : runName Controller.oneHeatedRest.name 1700000000 = name := by decide
  have hfits : Storage.Fits ⟨""⟩ (runName Controller.oneHeatedRest.name 1700000000) := by
    rw [hname]
    exact Storage.fits_oak
  have hfree : Storage.bareTree.get?
      (spot [] .running .program (runName Controller.oneHeatedRest.name 1700000000)) = none := by
    rw [hname]
    decide
  obtain ⟨run, files, hlaunch⟩ :=
    launch_of_tidy htidy ⟨rfl, rfl⟩ (by decide) hfits hfree ⟨1000, 60, 60⟩
  obtain ⟨hrunName, hlaunched, _, hlaw⟩ := outcome_is_what_is_stored hlaunch stoppedRest
  rw [hname] at hrunName
  have houtcome : (run.hear stoppedRest).1.outcome? =
      some ⟨name, .canceled, (run.hear stoppedRest).1.status⟩ := by
    rw [hlaunched.prepared]
    decide
  obtain ⟨hcalls, _, _, _, _, _, _, hfiles⟩ := hlaw _ houtcome
  have hslash : '/' ∉ run.name.toList := by rw [hrunName]; decide
  have hsteady := (hlaunched.onShelf Storage.laid_bareTree hslash).2
  have hfaultless := faultless_of_tidy hslash (hrunName ▸ Storage.fits_oak) (run.hear stoppedRest).2
    (htidy.congr hsteady) (FileTree.Willing.congr ⟨rfl, rfl⟩ hsteady)
  have htells := (hfiles [] (by decide) Storage.laid_bareTree hfaultless).2
  exact ⟨run, files, hlaunch, ⟨_, houtcome⟩, hcalls, hrunName ▸ htells⟩

end Run
end DryKiln
