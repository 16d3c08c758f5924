-- What the calls of an engine do with its slot. A start fills it if no run in it is going on, a stop
-- empties it, and somebody who waits empties it when the run in it has ended; otherwise the bench
-- only gets later.
import DryKiln.Proofs.Bench.Stopping
import DryKiln.Proofs.Engine.Refusal

namespace DryKiln

/-- A run that has ended is silent. -/
theorem LiveRun.Fit.silent {live : LiveRun} (h : live.Fit) {ending : Ending}
    (hended : live.ending? = some ending) : live.Silent := by
  rcases LiveRun.ending_cases hended with ⟨hbroken, -⟩ | ⟨outcome, rfl, -⟩
  · exact ⟨.inl hbroken, fun _ => h.hushed hbroken⟩
  · exact LiveRun.silent_of_outcome hended

namespace Bench

variable {bench next : Bench} {i : Nat}

/-- The run at a position is going on. -/
def Active (bench : Bench) (i : Nat) : Prop := ∃ live, bench.run? i = some live ∧ live.ending? = none

theorem active_iff : bench.Active i ↔ bench.isFinished i = false := by
  unfold Active isFinished LiveRun.isFinished
  cases bench.run? i with
  | none => simp
  | some live => simp

theorem Active.ending?_eq_none (h : bench.Active i) : bench.ending? i = none := by
  obtain ⟨live, hlive, hending⟩ := h
  simp [ending?, hlive, hending]

/-- A run that is going on has been going on before. -/
theorem Continues.active (h : bench.Continues next) (hactive : next.Active i) : bench.Active i := by
  obtain ⟨after, hafter, hnone⟩ := hactive
  obtain ⟨live, hlive, hcontinues⟩ := h.back hafter
  refine ⟨live, hlive, ?_⟩
  cases hending : live.ending? with
  | none => rfl
  | some ending =>
    rw [hcontinues.ended ending hending] at hnone
    cases hnone

/-- What has ended has ended for good. -/
theorem Continues.ending? (h : bench.Continues next) {ending : Ending}
    (hending : bench.ending? i = some ending) : next.ending? i = some ending := by
  obtain ⟨live, hlive, hended⟩ := Option.bind_eq_some_iff.mp hending
  obtain ⟨after, hafter, hcontinues⟩ := h.run i live hlive
  exact Option.bind_eq_some_iff.mpr ⟨after, hafter, hcontinues.ended ending hended⟩

/-! ## Runs that have ended -/

/-- A bench on which no run is active is silent. -/
theorem Fit.silent (hfit : bench.Fit) (hnone : ∀ i, ¬ bench.Active i) : bench.Silent := by
  intro live hmem
  obtain ⟨i, hi, rfl⟩ := List.mem_iff_getElem.mp hmem
  cases hending : bench.runs[i].ending? with
  | none => exact absurd ⟨_, List.getElem?_eq_getElem hi, hending⟩ (hnone i)
  | some ending => exact (hfit _ hmem).1.silent hending

/-! ## Runs that are started -/

/-- A run that could be prepared is the run of its program. -/
theorem prepare_of_ok {program : Program} {settings : RunSettings} {run : Run} {logFile : OpenFile}
    (h : (bench.prepare program settings).2 = .ok (run, logFile)) :
    ∃ name now, run = .prepare name program settings now := by
  unfold prepare at h
  split at h
  · cases h
  · split at h
    · cases h
    · rename_i read reading hread
      dsimp only at h
      have hlaunching := Run.launching read.site.storage read.site.tree program settings
        read.site.clock
      cases hlaunch : (Run.launch read.site.storage read.site.tree program settings
          read.site.clock).2 with
      | error cause =>
        rw [hlaunch] at h
        cases h
      | ok launched =>
        rw [hlaunch] at h hlaunching
        cases h
        generalize (Run.launch _ _ _ _ _).1 = left at hlaunching
        cases hlaunching with
        | launched => exact ⟨_, _, rfl⟩

theorem prepare_ne_alreadyRunning (program : Program) (settings : RunSettings) :
    (bench.prepare program settings).2 ≠ .error .alreadyRunning := by
  unfold prepare
  split
  · nofun
  · split
    · nofun
    · dsimp only
      generalize (Run.launch _ _ _ _ _).2 = launched
      cases launched <;> nofun

theorem length_start (bench : Bench) (run : Run) (logFile : OpenFile) :
    (bench.start run logFile).1.runs.length = bench.runs.length + 1 := by
  simp [start]

/-- A run that is put to work gets a place of its own, and the others keep theirs. -/
theorem run?_start (bench : Bench) (run : Run) (logFile : OpenFile) (j : Nat) :
    (bench.start run logFile).1.run? j =
      if j = bench.runs.length then some (.fresh run logFile) else bench.run? j := by
  unfold run? start
  rcases Nat.lt_trichotomy j bench.runs.length with hj | rfl | hj
  · rw [List.getElem?_append_left hj, if_neg (Nat.ne_of_lt hj)]
  · simp
  · rw [if_neg (Nat.ne_of_gt hj), List.getElem?_eq_none (by simp; omega),
      List.getElem?_eq_none (by omega)]

theorem lt_of_ending? {ending : Ending} (h : bench.ending? i = some ending) :
    i < bench.runs.length := by
  obtain ⟨live, hlive, -⟩ := Option.bind_eq_some_iff.mp h
  exact (List.getElem?_eq_some_iff.mp hlive).1

theorem ending?_start {ending : Ending} (h : bench.ending? i = some ending) (run : Run)
    (logFile : OpenFile) : (bench.start run logFile).1.ending? i = some ending := by
  unfold ending?
  rw [run?_start, if_neg (Nat.ne_of_lt (lt_of_ending? h))]
  exact h

/-- If no run is active, then only the one that is put to work is. -/
theorem active_start {run : Run} {logFile : OpenFile} (hnone : ∀ j, ¬ bench.Active j)
    (h : (bench.start run logFile).1.Active i) : i = bench.runs.length := by
  obtain ⟨live, hlive, hgoing⟩ := h
  rw [run?_start] at hlive
  split at hlive
  · assumption
  · exact absurd ⟨live, hlive, hgoing⟩ (hnone i)

theorem Fit.start (hfit : bench.Fit) {run : Run} (logFile : OpenFile)
    (hphase : run.phase = .prepared) (hshown : run.Shown) : (bench.start run logFile).1.Fit := by
  intro live hmem
  rcases List.mem_append.mp hmem with hmem | hnew
  · exact hfit live hmem
  · obtain rfl := List.mem_singleton.mp hnew
    refine ⟨LiveRun.fit_fresh logFile hphase hshown, ?_⟩
    simp [LiveRun.load, LiveRun.devices, LiveRun.fresh, Run.planned, hphase, Poller.load,
      Poller.fresh, Gateway.load, Gateway.fresh, Gateway.isFinished, stepsAtOnce]

end Bench

namespace Engine

variable {engine : Engine} {i : Nat}

theorem running?_eq_some_iff :
    engine.running? = some i ↔ engine.slot = some i ∧ engine.bench.Active i := by
  rw [Bench.active_iff, running?, Option.filter_eq_some_iff]
  simp

theorem isRunning_eq_true_iff : engine.isRunning = true ↔ ∃ i, engine.running? = some i := by
  rw [isRunning, Option.isSome_iff_exists]

theorem running?_eq_none_of (h : engine.isRunning = false) : engine.running? = none := by
  simpa [isRunning] using h

/-! ## The calls -/

/-- What a start makes of an engine, and its answer. -/
inductive Started (engine : Engine) (program : Program) :
    Engine → Except EngineFault String → Prop where
  | refused (running : engine.isRunning = true) :
      Started engine program engine (.error .alreadyRunning)
  | failed {bench : Bench} {fault : EngineFault} (idle : engine.isRunning = false)
      (later : engine.bench.Later bench) (other : fault ≠ .alreadyRunning) :
      Started engine program { engine with bench, slot := none } (.error fault)
  | began {bench : Bench} {ready : Program} {name : String} {now : Int} {logFile : OpenFile}
      (idle : engine.isRunning = false) (later : engine.bench.Later bench)
      (accepted : program.ready engine.config.defaults = .ok ready) :
      Started engine program
        { engine with
          bench := (bench.start (.prepare name ready engine.config.runSettings now) logFile).1
          slot := some bench.runs.length }
        (.ok name)

theorem started (hfit : engine.bench.Fit) (program : Program) :
    Started engine program (engine.start program).1 (engine.start program).2 := by
  cases hrunning : engine.isRunning with
  | true =>
    rw [start_of_running hrunning]
    exact .refused hrunning
  | false =>
    cases hready : program.ready engine.config.defaults with
    | error cause =>
      rw [start_of_invalid hrunning hready]
      exact .failed hrunning (.refl engine.bench) nofun
    | ok ready =>
      have hlater := hfit.later_prepare ready engine.config.runSettings
      cases hprepare : engine.bench.prepare ready engine.config.runSettings with
      | mk bench result =>
        rw [hprepare] at hlater
        cases result with
        | error fault =>
          rw [start_of_unprepared hrunning hready hprepare]
          have hother := engine.bench.prepare_ne_alreadyRunning ready engine.config.runSettings
          rw [hprepare] at hother
          exact .failed hrunning hlater fun heq => hother (congrArg _ heq)
        | ok prepared =>
          obtain ⟨run, logFile⟩ := prepared
          obtain ⟨name, now, rfl⟩ := Bench.prepare_of_ok (congrArg Prod.snd hprepare)
          have hstart : engine.start program =
              ({ engine with
                  bench := (bench.start (.prepare name ready engine.config.runSettings now)
                    logFile).1
                  slot := some bench.runs.length }, .ok name) := by
            rw [start, if_neg (by simp [hrunning])]
            simp only [hready, hprepare]
            rfl
          rw [hstart]
          exact .began hrunning hlater hready

/-- What a stop makes of an engine, and its answer. -/
inductive Stopped (engine : Engine) : Engine → Except EngineFault (Option Ending) → Prop where
  | refused (idle : engine.running? = none) :
      Stopped engine { engine with slot := none } (.error .notRunning)
  | waited {bench : Bench} {i : Nat} (running : engine.running? = some i)
      (later : engine.bench.Later bench) :
      Stopped engine { engine with bench, slot := none } (.ok (bench.ending? i))

theorem stopped (hfit : engine.bench.Fit) (limit : Nat) :
    Stopped engine (engine.stop limit).1 (engine.stop limit).2 := by
  cases hrunning : engine.running? with
  | none =>
    simp only [stop, hrunning]
    exact .refused hrunning
  | some i =>
    simp only [stop, hrunning]
    exact .waited hrunning (hfit.later_stop i limit)

/-- What somebody who waits makes of an engine, and what he comes to know. -/
inductive Waited (engine : Engine) : Engine → Awaited → Prop where
  | nothing {bench : Bench} (later : engine.bench.Later bench) :
      Waited engine { engine with bench } .nothingStarted
  | ended {bench : Bench} {i : Nat} {ending : Ending} (there : engine.slot = some i)
      (later : engine.bench.Later bench) (known : bench.ending? i = some ending) :
      Waited engine { engine with bench, slot := none } (.ended ending)
  | gaveUp {bench : Bench} (later : engine.bench.Later bench) :
      Waited engine { engine with bench } .givenUp

theorem Waited.after {bench : Bench} {next : Engine} {awaited : Awaited}
    (later : engine.bench.Later bench) (h : Waited { engine with bench } next awaited) :
    Waited engine next awaited := by
  cases h with
  | nothing more => exact .nothing (later.trans more)
  | ended there more known => exact .ended there (later.trans more) known
  | gaveUp more => exact .gaveUp (later.trans more)

theorem waited_waitTo (hfit : engine.bench.Fit) (instant looks : Nat) :
    Waited engine (engine.waitTo instant looks).1 (engine.waitTo instant looks).2 := by
  induction looks generalizing engine with
  | zero => exact .gaveUp (.refl engine.bench)
  | succ looks ih =>
    obtain ⟨config, bench, slot⟩ := engine
    unfold waitTo
    cases slot with
    | none => exact .nothing (.refl bench)
    | some i =>
      dsimp only
      cases hending : bench.ending? i with
      | some ending => exact .ended rfl (.refl bench) hending
      | none =>
        dsimp only
        split
        · exact .gaveUp (hfit.later_sleep _)
        · have hlater := hfit.later_pass config.tickLength.toNat
          exact .after hlater (ih (hlater.fit hfit))

theorem waited (hfit : engine.bench.Fit) (limit : Nat) :
    Waited engine (engine.wait limit).1 (engine.wait limit).2 :=
  waited_waitTo hfit _ _

end Engine
end DryKiln
