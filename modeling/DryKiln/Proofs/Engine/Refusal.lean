-- A start that is refused. The engine has the program that it had before, the power unit is told
-- nothing, and the files are as they were, unless the program file was there already when it, or
-- one of the other files of the run, could not be opened or written: what is stored by then stays.
import DryKiln.Engine.Basic
import DryKiln.Proofs.Bench.Silence
import DryKiln.Proofs.Control.Shutdown

namespace DryKiln

/-! ## Launches that fail -/

/-- A state that is to be stored takes nothing away. -/
theorem Storage.there_of_updateState (storage : Storage) {tree : FileTree} (run : String)
    (state : RunState) {p : Path} (hp : tree.get? p ≠ none) :
    (FileTree.after (storage.updateState tree run state)).get? p ≠ none := by
  have hthere := FileTree.there_of_writeText (storage.runningFile .state run) state.label hp
  unfold updateState
  cases hwrite : tree.writeText (storage.runningFile .state run) state.label <;>
    rwa [hwrite] at hthere

namespace Run

/-- What a launch that fails leaves behind, once the program file is there: the program is not
taken, the state is not stored, the log is not opened, or the log does not take its header. -/
inductive LeftOver (storage : Storage) (tree : FileTree) (program : Program) (now : Int) :
    FileTree → StorageFault → Prop where
  | unwritten {created : FileTree × OpenFile} {unfinished : Unfinished FileFault}
      (create : tree.create (storage.runningFile .program (runName program.name now)) = .ok created)
      (write : created.1.write created.2 (Storage.programText program) = .error unfinished) :
      LeftOver storage tree program now unfinished.left (Storage.unwritten
        (Storage.programText program) (created.1.takes created.2) unfinished.fault)
  | unstated {made : FileTree} {unfinished : Unfinished StorageFault}
      (create : storage.createRun tree (runName program.name now) program = .ok made)
      (state : storage.updateState made (runName program.name now) .pending = .error unfinished) :
      LeftOver storage tree program now unfinished.left unfinished.fault
  | logless {made pending : FileTree} {fault : StorageFault}
      (create : storage.createRun tree (runName program.name now) program = .ok made)
      (state : storage.updateState made (runName program.name now) .pending = .ok pending)
      (log : storage.openLog pending (runName program.name now) = .error fault) :
      LeftOver storage tree program now pending fault
  | headless {made pending : FileTree} {opened : FileTree × OpenFile}
      {unfinished : Unfinished FileFault}
      (create : storage.createRun tree (runName program.name now) program = .ok made)
      (state : storage.updateState made (runName program.name now) .pending = .ok pending)
      (log : storage.openLog pending (runName program.name now) = .ok opened)
      (header : opened.1.write opened.2 LogWriter.header = .error unfinished) :
      LeftOver storage tree program now unfinished.left (.file unfinished.fault)

variable {storage : Storage} {tree next : FileTree} {program : Program} {now : Int}
  {fault : StorageFault}

theorem leftOver_of_createRun
    (h : storage.createRun tree (runName program.name now) program = .error ⟨next, fault⟩) :
    next = tree ∨ LeftOver storage tree program now next fault := by
  unfold Storage.createRun at h
  cases hcreate : tree.create (storage.runningFile .program (runName program.name now)) with
  | error cause =>
    rw [hcreate] at h
    cases cause <;> exact .inl (congrArg Unfinished.left (Except.error.inj h)).symm
  | ok created =>
    simp only [hcreate] at h
    cases hwrite : created.1.write created.2 (Storage.programText program) with
    | error cause =>
      simp only [hwrite, Except.error.injEq, Unfinished.mk.injEq] at h
      obtain ⟨rfl, rfl⟩ := h
      exact .inr (.unwritten hcreate hwrite)
    | ok written =>
      simp only [hwrite] at h
      cases h

/-- A launch that fails has stored nothing, or leaves something behind. -/
theorem launch_of_error {settings : RunSettings}
    (h : (launch storage tree program settings now).2 = .error fault) :
    (launch storage tree program settings now).1 = tree ∨
    LeftOver storage tree program now (launch storage tree program settings now).1 fault := by
  have hlaunching := launching storage tree program settings now
  rw [h] at hlaunching
  generalize (launch storage tree program settings now).1 = left at hlaunching ⊢
  cases hlaunching with
  | uncreated create => exact leftOver_of_createRun create
  | unstated create state => exact .inr (.unstated create state)
  | logless create state log => exact .inr (.logless create state log)
  | headless create state log header => exact .inr (.headless create state log header)

theorem there_of_createRun
    (h : storage.createRun tree (runName program.name now) program = .ok next) :
    ∃ place, tree.get? place = none ∧ next.get? place ≠ none := by
  obtain ⟨opened, _, hcreate, hwrite, rfl⟩ := Storage.created_of_ok h
  obtain ⟨place, habsent, hthere⟩ := FileTree.there_of_create hcreate
  have hwritten := FileTree.there_of_tryWrite opened.2 (Storage.programText program) hthere
  rw [FileTree.tryWrite_of_write hwrite] at hwritten
  exact ⟨place, habsent, hwritten⟩

/-- What is left behind was not there before. -/
theorem LeftOver.there (h : LeftOver storage tree program now next fault) :
    ∃ place, tree.get? place = none ∧ next.get? place ≠ none := by
  have hpending (made : FileTree) {place : Path} (hthere : made.get? place ≠ none) :=
    storage.there_of_updateState (runName program.name now) .pending hthere
  cases h with
  | unwritten create write =>
    obtain ⟨place, habsent, hcreated⟩ := FileTree.there_of_create create
    exact ⟨place, habsent, FileTree.there_of_write write hcreated⟩
  | unstated create state =>
    obtain ⟨place, habsent, hmade⟩ := there_of_createRun create
    have hthere := hpending _ hmade
    rw [state] at hthere
    exact ⟨place, habsent, hthere⟩
  | logless create state =>
    obtain ⟨place, habsent, hmade⟩ := there_of_createRun create
    have hthere := hpending _ hmade
    rw [state] at hthere
    exact ⟨place, habsent, hthere⟩
  | headless create state log header =>
    obtain ⟨place, habsent, hmade⟩ := there_of_createRun create
    have hthere := hpending _ hmade
    rw [state] at hthere
    have hopened := FileTree.there_of_openEmpty (Storage.opened_of_ok log) hthere
    exact ⟨place, habsent, FileTree.there_of_write header hopened⟩

theorem LeftOver.ne (h : LeftOver storage tree program now next fault) : next ≠ tree := by
  obtain ⟨place, habsent, hthere⟩ := h.there
  rintro rfl
  exact hthere habsent

end Run

/-! ## Runs that are not prepared -/

namespace Bench

variable {bench next : Bench} {program : Program} {settings : RunSettings} {fault : EngineFault}

/-- The bench when both units have been read. -/
def asked (bench : Bench) : Bench := bench.readTemperatures.1.readPower.1

theorem Silent.asked (h : bench.Silent) : Rests bench bench.asked :=
  h.readTemperatures.trans h.readTemperatures.silent.readPower

/-- A storage fault has left something behind of a run that was to begin when both units had been
read. -/
def LeftOver (bench : Bench) (program : Program) (next : FileTree) (fault : EngineFault) : Prop :=
  ∃ cause, fault = .storage cause ∧
    Run.LeftOver bench.site.storage bench.site.tree program bench.asked.site.clock next cause

theorem prepare_of_deafTemperatures (program : Program) (settings : RunSettings)
    {cause : SensorFault} (h : bench.readTemperatures.2 = .error cause) :
    bench.prepare program settings =
      (bench.readTemperatures.1, .error (.sensorUnreachable .temperature cause)) := by
  unfold prepare
  rw [← Prod.eta bench.readTemperatures, h]

theorem prepare_of_deafPower (program : Program) (settings : RunSettings) {cause : SensorFault}
    {temperatures : Temperatures} (htemperatures : bench.readTemperatures.2 = .ok temperatures)
    (hpower : bench.readTemperatures.1.readPower.2 = .error cause) :
    bench.prepare program settings = (bench.asked, .error (.sensorUnreachable .power cause)) := by
  unfold prepare asked
  rw [← Prod.eta bench.readTemperatures, htemperatures]
  dsimp only
  rw [← Prod.eta bench.readTemperatures.1.readPower, hpower]

theorem prepare_of_asked (program : Program) (settings : RunSettings)
    {temperatures : Temperatures} {power : PowerReading}
    (htemperatures : bench.readTemperatures.2 = .ok temperatures)
    (hpower : bench.readTemperatures.1.readPower.2 = .ok power) :
    bench.prepare program settings =
      let launched := Run.launch bench.asked.site.storage bench.asked.site.tree program settings
        bench.asked.site.clock
      ({ bench.asked with site := { bench.asked.site with tree := launched.1 } },
        launched.2.mapError .storage) := by
  unfold prepare asked
  rw [← Prod.eta bench.readTemperatures, htemperatures]
  dsimp only
  rw [← Prod.eta bench.readTemperatures.1.readPower, hpower]

/-- A run that cannot be prepared on a silent bench leaves all as it was, but for what has been
stored of it. -/
theorem Silent.prepare_of_error (h : bench.Silent)
    (hprepare : bench.prepare program settings = (next, .error fault)) :
    next.Silent ∧ next.runs.length = bench.runs.length ∧
      next.site.kiln.delivered = bench.site.kiln.delivered ∧
      (next.site.tree = bench.site.tree ↔ ¬ bench.LeftOver program next.site.tree fault) := by
  have hasked := h.asked
  cases htemperatures : bench.readTemperatures.2 with
  | error cause =>
    rw [prepare_of_deafTemperatures program settings htemperatures] at hprepare
    cases hprepare
    obtain ⟨hsilent, huntouched, hlength⟩ := h.readTemperatures
    exact ⟨hsilent, hlength, huntouched.delivered,
      iff_of_true huntouched.tree (by simp [LeftOver])⟩
  | ok temperatures =>
    cases hpower : bench.readTemperatures.1.readPower.2 with
    | error cause =>
      rw [prepare_of_deafPower program settings htemperatures hpower] at hprepare
      cases hprepare
      exact ⟨hasked.silent, hasked.length_eq, hasked.untouched.delivered,
        iff_of_true hasked.untouched.tree (by simp [LeftOver])⟩
    | ok power =>
      rw [prepare_of_asked program settings htemperatures hpower, hasked.untouched.tree,
        hasked.untouched.storage] at hprepare
      obtain ⟨hnext, herror⟩ := Prod.mk.inj hprepare
      subst hnext
      cases hlaunch : (Run.launch bench.site.storage bench.site.tree program settings
          bench.asked.site.clock).2 with
      | ok launched => simp [hlaunch, Except.mapError] at herror
      | error cause =>
        obtain rfl : .storage cause = fault := by
          simpa [hlaunch, Except.mapError] using herror
        refine ⟨hasked.silent, hasked.length_eq, hasked.untouched.delivered, ?_⟩
        rcases Run.launch_of_error hlaunch with hsame | hleft
        · refine iff_of_true hsame ?_
          rintro ⟨_, -, hleft⟩
          exact hleft.ne hsame
        · exact iff_of_false hleft.ne (not_not_intro ⟨cause, rfl, hleft⟩)

end Bench

namespace Engine

variable {engine : Engine}

/-- A program is running, or no run touches anything any more. -/
def Orderly (engine : Engine) : Prop := engine.isRunning = true ∨ engine.bench.Silent

theorem orderly_of_ended (h : ∀ live ∈ engine.bench.runs,
    ∃ outcome, live.ending? = some (.outcome outcome)) : engine.Orderly := by
  refine .inr fun live hmem => ?_
  obtain ⟨outcome, houtcome⟩ := h live hmem
  exact LiveRun.silent_of_outcome houtcome

theorem start_of_running (h : engine.isRunning = true) (program : Program) :
    engine.start program = (engine, .error .alreadyRunning) := by
  rw [start, if_pos h]

theorem start_of_invalid (h : engine.isRunning = false) {program : Program} {cause : ProgramFault}
    (hready : program.ready engine.config.defaults = .error cause) :
    engine.start program = ({ engine with slot := none }, .error (.invalidProgram cause)) := by
  rw [start, if_neg (by simp [h])]
  simp only [hready]

theorem start_of_unprepared (h : engine.isRunning = false) {program ready : Program}
    {bench : Bench} {fault : EngineFault}
    (hready : program.ready engine.config.defaults = .ok ready)
    (hprepare : engine.bench.prepare ready engine.config.runSettings = (bench, .error fault)) :
    engine.start program = ({ engine with bench, slot := none }, .error fault) := by
  rw [start, if_neg (by simp [h])]
  simp only [hready, hprepare]

/-- If a start is refused, then the program that is running is the one that was running before, no
run has been added, and the power unit has been told nothing. The files are as they were exactly if
it is not the storage that has failed after it had made the program file; then they are what had
been stored by that time. If a program was running, then nothing at all has changed. -/
theorem refused_start_keeps_all_but_left_overs (h : engine.Orderly) (program : Program)
    {fault : EngineFault} (hrefused : (engine.start program).2 = .error fault) :
    let next := (engine.start program).1
    next.running? = engine.running? ∧ next.bench.runs.length = engine.bench.runs.length ∧
      next.bench.site.kiln.delivered = engine.bench.site.kiln.delivered ∧ next.Orderly ∧
      (engine.isRunning = true → next = engine) ∧
      (next.bench.site.tree = engine.bench.site.tree ↔
        ¬ ∃ ready, program.ready engine.config.defaults = .ok ready ∧ engine.isRunning = false ∧
          engine.bench.LeftOver ready next.bench.site.tree fault) := by
  intro next
  cases hrunning : engine.isRunning with
  | true =>
    have hsame : next = engine := congrArg Prod.fst (start_of_running hrunning program)
    rw [hsame]
    simp [h]
  | false =>
    have hsilent : engine.bench.Silent := h.resolve_left (by simp [hrunning])
    have hnone : engine.running? = none := by simpa [isRunning] using hrunning
    cases hready : program.ready engine.config.defaults with
    | error cause =>
      have hnext : next = { engine with slot := none } :=
        congrArg Prod.fst (start_of_invalid hrunning hready)
      rw [hnext]
      exact ⟨hnone.symm, rfl, rfl, .inr hsilent, nofun, iff_of_true rfl (by simp)⟩
    | ok ready =>
      cases hprepare : engine.bench.prepare ready engine.config.runSettings with
      | mk bench result =>
        cases result with
        | ok prepared =>
          rw [start, if_neg (by simp [hrunning])] at hrefused
          simp [hready, hprepare] at hrefused
        | error cause =>
          have hstart := start_of_unprepared hrunning hready hprepare
          obtain rfl : cause = fault := by simpa [hstart] using hrefused
          have hnext : next = { engine with bench, slot := none } := congrArg Prod.fst hstart
          obtain ⟨hstill, hlength, hdelivered, htree⟩ := hsilent.prepare_of_error hprepare
          rw [hnext]
          refine ⟨hnone.symm, hlength, hdelivered, .inr hstill, nofun, htree.trans ?_⟩
          simp

/-- An engine that has started nothing, at a kiln and over a tree of files. -/
def fresh (tree : FileTree) (kiln : BenchKiln) : Engine :=
  .new ⟨⟨"kiln", .standard⟩, "/", standardTickLength, standardStaleAfter, standardLogResolution,
    standardHttpTimeout, ⟨"http://sensor", "/"⟩, ⟨"http://power", "/"⟩, .standard⟩
    (.setUp 1700000000 ⟨""⟩ tree kiln)

theorem orderly_fresh (tree : FileTree) (kiln : BenchKiln) : (fresh tree kiln).Orderly :=
  orderly_of_ended (by simp [fresh, new, Bench.setUp])

/-- A kiln whose power unit cannot be reached. -/
def muteKiln : BenchKiln := { BenchKiln.idle with powerFault := some (.transport "no route") }

-- a start is evaluated by the kernel alone
attribute [local irreducible] start

theorem mute_power_unit_leaves_all_as_it_was :
    let engine := fresh Storage.bareTree muteKiln
    let next := (engine.start Controller.oneHeatedRest).1
    (engine.start Controller.oneHeatedRest).2 =
        .error (.sensorUnreachable .power (.transport "no route")) ∧
      next.running? = engine.running? ∧
      next.bench.site.kiln.delivered = engine.bench.site.kiln.delivered ∧
      next.bench.site.tree = engine.bench.site.tree := by
  intro engine next
  have hrefused : (engine.start Controller.oneHeatedRest).2 =
      .error (.sensorUnreachable .power (.transport "no route")) := by decide +kernel
  obtain ⟨hrunning, -, hdelivered, -, -, htree⟩ :=
    refused_start_keeps_all_but_left_overs (orderly_fresh _ _) _ hrefused
  exact ⟨hrefused, hrunning, hdelivered, htree.mpr (by simp [Bench.LeftOver])⟩

/-- A disk that takes no more than eleven bytes of the program: the run is refused, and its file
stays with them. -/
example :
    let tree : FileTree := { Storage.bareTree with full := [0], taken := [(0, 11)] }
    let engine := fresh tree .idle
    let next := (engine.start Controller.oneHeatedRest).1
    (engine.start Controller.oneHeatedRest).2 = .error (.storage (.file .storageFull)) ∧
      next.bench.site.tree.get? (spot [] .running .program "oak@2023-11-14T22:13:20Z") =
        some (.file 0 (.text "\x7b\n  \"name\":")) := by
  decide +kernel

/-- A directory in the place of its state: the run is refused, and its program file stays. -/
theorem refused_start_leaves_a_program_file :
    let spot := spot [] .running .program "oak@2023-11-14T22:13:20Z"
    let tree : FileTree := { Storage.bareTree with entries :=
      (["running", "oak@2023-11-14T22:13:20Z.txt"], .directory) :: Storage.bareTree.entries }
    let engine := fresh tree .idle
    let next := (engine.start Controller.oneHeatedRest).1
    (engine.start Controller.oneHeatedRest).2 = .error (.storage (.file .isDirectory)) ∧
      engine.bench.site.tree.get? spot = none ∧
      (next.bench.site.tree.get? spot).isSome = true := by
  decide +kernel

end Engine
end DryKiln
