-- The life of an engine. Programs are started, stopped and waited for in any order, and meanwhile
-- anything may happen on the bench, so that a run may end by itself at any time. Through all of it no
-- more than one run is active, every call says whether one is, and how a run has ended is told once.
import DryKiln.Proofs.Engine.Slot

namespace DryKiln

open Relation (ReflTransGen)

/-- A run of the engine is active, whether the engine knows of it or not. -/
def Engine.Busy (engine : Engine) : Prop := ∃ i, engine.bench.Active i

/-! ## Calls -/

/-- An engine with its past. -/
structure Life where
  engine : Engine
  /-- The programs that have been started, in this order, each ready to be carried out. -/
  started : List Program
  /-- What callers have been told: the place of a run, and how it has ended. -/
  handed : List (Nat × Ending)

namespace Life

/-- An engine that has started nothing. -/
def fresh (config : Config) (bench : Bench) : Life := ⟨.new config bench, [], []⟩

def start (life : Life) (program : Program) : Life where
  engine := (life.engine.start program).1
  started :=
    match (life.engine.start program).2, program.ready life.engine.config.defaults with
    | .ok _, .ok ready => life.started ++ [ready]
    | _, _ => life.started
  handed := life.handed

/-- Whoever stops a program is told how the running one has ended. -/
def stop (life : Life) (limit : Nat) : Life where
  engine := (life.engine.stop limit).1
  started := life.started
  handed :=
    match (life.engine.stop limit).2 with
    | .ok (some ending) => life.handed ++ (life.engine.running?.map (·, ending)).toList
    | _ => life.handed

/-- Whoever waits is told how the program has ended that was started last. -/
def wait (life : Life) (limit : Nat) : Life where
  engine := (life.engine.wait limit).1
  started := life.started
  handed :=
    match (life.engine.wait limit).2 with
    | .ended ending => life.handed ++ (life.engine.slot.map (·, ending)).toList
    | _ => life.handed

/-- One call, or what happens on the bench between two calls. A stop has no answer before the run
has ended. Somebody may look again and again whether a program has ended, with other calls in
between. To ask whether a program is running and for its status changes nothing. -/
inductive Next (life : Life) : Life → Prop where
  | start (program : Program) : Next life (life.start program)
  | stop (limit : Nat) (answered : (life.engine.stop limit).2 ≠ .ok none) :
      Next life (life.stop limit)
  | wait (limit : Nat) : Next life (life.wait limit)
  | meanwhile (bench : Bench) (later : life.engine.bench.Later bench) :
      Next life { life with engine := { life.engine with bench } }

/-- What can become of an engine that has started nothing, whatever its configuration, its files
and its kiln. -/
def Reached (life : Life) : Prop :=
  ∃ config epoch storage tree kiln,
    ReflTransGen Next (fresh config (.setUp epoch storage tree kiln)) life

/-! ## The invariant -/

/-- A run that is active is the one in the slot, the runs carry out the programs that have been
started, and the run in the slot is none of those that callers have been told of. -/
structure Sound (life : Life) : Prop where
  fit : life.engine.bench.Fit
  length : life.started.length = life.engine.bench.runs.length
  programs : ∀ i live, life.engine.bench.run? i = some live →
    life.started[i]? = some live.run.identity.program ∧
      live.run.identity.settings = life.engine.config.runSettings
  slot : ∀ i, life.engine.bench.Active i → life.engine.slot = some i
  told : ∀ i ending, (i, ending) ∈ life.handed →
    life.engine.bench.ending? i = some ending ∧ life.engine.slot ≠ some i
  once : (life.handed.map Prod.fst).Nodup

variable {life after : Life} {bench : Bench} {i : Nat}

theorem sound_fresh (config : Config) (epoch : Int) (storage : Storage) (tree : FileTree)
    (kiln : BenchKiln) : Sound (fresh config (.setUp epoch storage tree kiln)) := by
  refine ⟨List.forall_mem_nil _, rfl, ?_, ?_, ?_, .nil⟩
  · intro i live hlive
    simp [fresh, Engine.new, Bench.setUp, Bench.run?] at hlive
  · rintro i ⟨live, hlive, -⟩
    simp [fresh, Engine.new, Bench.setUp, Bench.run?] at hlive
  · intro i ending hmem
    cases hmem

/-- On a later bench the runs are the same, and the slot may have been emptied if none of them is
active. -/
theorem Sound.later (h : life.Sound) (hlater : life.engine.bench.Later bench) {slot : Option Nat}
    (hslot : slot = life.engine.slot ∨ slot = none ∧ ∀ i, ¬ bench.Active i) :
    Sound { life with engine := { life.engine with bench, slot } } := by
  have hcontinues := hlater.continues
  refine ⟨hlater.fit h.fit, h.length.trans hcontinues.length.symm, ?_, ?_, ?_, h.once⟩
  · intro i after hafter
    obtain ⟨live, hlive, hsame⟩ := hcontinues.back hafter
    rw [hsame.identity]
    exact h.programs i live hlive
  · intro i hactive
    rcases hslot with rfl | ⟨rfl, hnone⟩
    · exact h.slot i (hcontinues.active hactive)
    · exact absurd hactive (hnone i)
  · intro i ending hmem
    obtain ⟨hending, hother⟩ := h.told i ending hmem
    refine ⟨hcontinues.ending? hending, ?_⟩
    rcases hslot with rfl | ⟨rfl, -⟩
    · exact hother
    · nofun

/-- The run that was in the slot has ended, and somebody is told so. -/
theorem Sound.hand (h : life.Sound) (hlater : life.engine.bench.Later bench) {ending : Ending}
    (hthere : life.engine.slot = some i) (hending : bench.ending? i = some ending) :
    Sound ⟨{ life.engine with bench, slot := none }, life.started,
      life.handed ++ [(i, ending)]⟩ := by
  have hnone : ∀ j, ¬ bench.Active j := by
    intro j hactive
    have hj := h.slot j (hlater.continues.active hactive)
    obtain rfl : i = j := Option.some.inj (hthere.symm.trans hj)
    simp [hactive.ending?_eq_none] at hending
  obtain ⟨hfit, hlength, hprograms, hslot, htold, honce⟩ := h.later hlater (.inr ⟨rfl, hnone⟩)
  refine ⟨hfit, hlength, hprograms, hslot, ?_, ?_⟩
  · intro j last hmem
    rcases List.mem_append.mp hmem with hmem | hnew
    · exact htold j last hmem
    · cases List.mem_singleton.mp hnew
      exact ⟨hending, nofun⟩
  · rw [List.map_append, List.nodup_append]
    refine ⟨honce, List.nodup_singleton _, ?_⟩
    intro j hmem k hnew heq
    obtain ⟨⟨_, last⟩, hpair, rfl⟩ := List.mem_map.mp hmem
    have hi := heq.trans (List.mem_singleton.mp hnew)
    exact (h.told _ last hpair).2 (hthere.trans (congrArg some hi.symm))

/-! ## What the calls keep -/

theorem Sound.not_active (h : life.Sound) (hidle : life.engine.running? = none) (i : Nat) :
    ¬ life.engine.bench.Active i := by
  intro hactive
  have hrunning := Engine.running?_eq_some_iff.mpr ⟨h.slot i hactive, hactive⟩
  simp [hidle] at hrunning

/-- A run that is put to work while none is active is the one in the slot. -/
theorem Sound.begin (h : life.Sound) (hnone : ∀ i, ¬ life.engine.bench.Active i) (name : String)
    (ready : Program) (now : Int) (logFile : OpenFile) :
    Sound ⟨{ life.engine with
        bench := (life.engine.bench.start
          (.prepare name ready life.engine.config.runSettings now) logFile).1
        slot := some life.engine.bench.runs.length },
      life.started ++ [ready], life.handed⟩ := by
  obtain ⟨hfit, hlength, hprograms, -, htold, honce⟩ := h
  refine ⟨hfit.start logFile rfl (Run.shown_prepare _ _ _ _), ?_, ?_, ?_, ?_, honce⟩
  · rw [Bench.length_start, ← hlength, List.length_append, List.length_singleton]
  · intro i live hlive
    rw [Bench.run?_start] at hlive
    split at hlive
    · rename_i hi
      cases hlive
      subst hi
      rw [← hlength]
      exact ⟨List.getElem?_concat_length, rfl⟩
    · obtain ⟨hprogram, hsettings⟩ := hprograms i live hlive
      obtain ⟨hi, -⟩ := List.getElem?_eq_some_iff.mp hprogram
      exact ⟨(List.getElem?_append_left hi).trans hprogram, hsettings⟩
  · intro i hactive
    exact congrArg some (Bench.active_start hnone hactive).symm
  · intro i ending hmem
    obtain ⟨hending, -⟩ := htold i ending hmem
    refine ⟨Bench.ending?_start hending _ _, ?_⟩
    intro hsame
    have hi := Bench.lt_of_ending? hending
    have heq := Option.some.inj hsame
    omega

theorem Sound.start (h : life.Sound) (program : Program) : (life.start program).Sound := by
  have hstarted := Engine.started h.fit program
  unfold Life.start
  generalize (life.engine.start program).1 = engine, (life.engine.start program).2 = answer at hstarted
  cases hstarted with
  | refused running => exact h
  | failed idle later other =>
    have hnone := h.not_active (Engine.running?_eq_none_of idle)
    exact h.later later (.inr ⟨rfl, fun i hactive => hnone i (later.continues.active hactive)⟩)
  | @began bench ready name now logFile idle later accepted =>
    have hnone := h.not_active (Engine.running?_eq_none_of idle)
    have hlater := h.later later (.inl rfl)
    rw [accepted]
    exact hlater.begin (fun i hactive => hnone i (later.continues.active hactive)) name ready now
      logFile

theorem Sound.stop (h : life.Sound) {limit : Nat}
    (answered : (life.engine.stop limit).2 ≠ .ok none) : (life.stop limit).Sound := by
  have hstopped := Engine.stopped h.fit limit
  unfold Life.stop
  generalize (life.engine.stop limit).1 = engine, (life.engine.stop limit).2 = answer
    at hstopped answered
  cases hstopped with
  | refused idle =>
    rw [idle]
    exact h.later (.refl _) (.inr ⟨rfl, h.not_active idle⟩)
  | @waited bench i running later =>
    rw [running]
    cases hending : bench.ending? i with
    | none => exact absurd (congrArg _ hending) answered
    | some ending => exact h.hand later (Engine.running?_eq_some_iff.mp running).1 hending

theorem Sound.wait (h : life.Sound) (limit : Nat) : (life.wait limit).Sound := by
  have hwaited := Engine.waited h.fit limit
  unfold Life.wait
  generalize (life.engine.wait limit).1 = engine, (life.engine.wait limit).2 = awaited at hwaited
  cases hwaited with
  | nothing later => exact h.later later (.inl rfl)
  | ended there later known =>
    rw [there]
    exact h.hand later there known
  | gaveUp later => exact h.later later (.inl rfl)

theorem Sound.next (h : life.Sound) (hnext : life.Next after) : after.Sound := by
  cases hnext with
  | start program => exact h.start program
  | stop limit answered => exact h.stop answered
  | wait limit => exact h.wait limit
  | meanwhile bench later => exact h.later later (.inl rfl)

theorem Reached.sound (h : life.Reached) : life.Sound := by
  obtain ⟨config, epoch, storage, tree, kiln, hcalls⟩ := h
  induction hcalls with
  | refl => exact sound_fresh config epoch storage tree kiln
  | tail _ hnext ih => exact ih.next hnext

/-- Between two calls a program is running, or no run touches anything any more. -/
theorem Sound.orderly (h : life.Sound) : life.engine.Orderly := by
  cases hrunning : life.engine.isRunning with
  | true => exact .inl hrunning
  | false => exact .inr (h.fit.silent (h.not_active (Engine.running?_eq_none_of hrunning)))

/-- So a start that is refused keeps everything but left overs, whatever has been called before. -/
theorem Reached.orderly (h : life.Reached) : life.engine.Orderly := h.sound.orderly

/-! ## The laws -/

/-- This ending is that of a run: the outcome that bears its name and its program. A run whose ticks
have no time between them has no outcome; it breaks off. -/
def EndsWith (life : Life) (i : Nat) (live : LiveRun) (ending : Ending) : Prop :=
  (∃ outcome, ending = .outcome outcome ∧ outcome.name = live.run.name ∧
    life.started[i]? = some outcome.status.program) ∨
  (ending = .brokenOff ∧ life.engine.config.tickLength = 0)

/-- The laws of an engine with its past. -/
structure Lawful (life : Life) : Prop where
  /-- At most one run is active, now and whatever happens on the bench before the next call or in
  the course of it. -/
  one_active : ∀ bench, life.engine.bench.Later bench →
    ∀ i j, bench.Active i → bench.Active j → i = j
  running_iff : life.engine.isRunning = true ↔ life.engine.Busy
  start_refused_iff : ∀ program,
    (life.engine.start program).2 = .error .alreadyRunning ↔ life.engine.Busy
  start_refused : life.engine.Busy → ∀ program, (life.engine.start program).1 = life.engine
  /-- A run that has ended is as good as none. -/
  start_freed : ¬ life.engine.Busy → ∀ program,
    life.engine.start program = Engine.start { life.engine with slot := none } program
  start_begins : ∀ program name, (life.engine.start program).2 = .ok name →
    (life.engine.start program).1.bench.Active life.engine.bench.runs.length
  stop_refused_iff : ∀ limit, (life.engine.stop limit).2 = .error .notRunning ↔ ¬ life.engine.Busy
  stop_answers : life.engine.Busy → ∃ enough, ∀ limit, enough ≤ limit →
    ∃ ending, (life.engine.stop limit).2 = .ok (some ending)
  stop_hands : ∀ i live, life.engine.bench.run? i = some live → life.engine.bench.Active i →
    ∀ limit ending, (life.engine.stop limit).2 = .ok (some ending) →
      (life.engine.stop limit).1.bench.ending? i = some ending ∧ life.EndsWith i live ending
  /-- Whoever stops leaves an engine at which nothing is active, however the stop was answered. -/
  stop_leaves : ∀ limit, (life.engine.stop limit).2 ≠ .ok none →
    (life.engine.stop limit).1.slot = none ∧ ¬ (life.engine.stop limit).1.Busy
  status_none_iff : life.engine.status? = none ↔ ¬ life.engine.Busy
  status_some : ∀ i live, life.engine.bench.run? i = some live → life.engine.bench.Active i →
    life.engine.status? = some live.run.status ∧ life.started[i]? = some live.run.status.program
  /-- No two callers have been told how the same run has ended. -/
  handed_once : (life.handed.map Prod.fst).Nodup
  handed_true : ∀ i ending, (i, ending) ∈ life.handed →
    life.engine.bench.ending? i = some ending

theorem Sound.running? (h : life.Sound) :
    life.engine.running? = some i ↔ life.engine.bench.Active i :=
  Engine.running?_eq_some_iff.trans ⟨And.right, fun hactive => ⟨h.slot i hactive, hactive⟩⟩

theorem Sound.running?_eq_none (h : life.Sound) :
    life.engine.running? = none ↔ ¬ life.engine.Busy := by
  unfold Engine.Busy
  rw [not_exists]
  constructor
  · exact h.not_active
  · intro hnone
    cases hrunning : life.engine.running? with
    | none => rfl
    | some i => exact absurd (h.running?.mp hrunning) (hnone i)

theorem Sound.isRunning (h : life.Sound) : life.engine.isRunning = true ↔ life.engine.Busy :=
  Engine.isRunning_eq_true_iff.trans (exists_congr fun _ => h.running?)

theorem Sound.one_active (h : life.Sound) (hlater : life.engine.bench.Later bench) {j : Nat}
    (hi : bench.Active i) (hj : bench.Active j) : i = j := by
  have hslot := h.slot i (hlater.continues.active hi)
  exact Option.some.inj (hslot.symm.trans (h.slot j (hlater.continues.active hj)))

theorem Sound.start_refused_iff (h : life.Sound) (program : Program) :
    (life.engine.start program).2 = .error .alreadyRunning ↔ life.engine.Busy := by
  rw [← h.isRunning]
  have hstarted := Engine.started h.fit program
  generalize (life.engine.start program).1 = engine, (life.engine.start program).2 = answer
    at hstarted
  cases hstarted with
  | refused running => simp [running]
  | failed idle later other => simp [idle, other]
  | began idle later accepted => simp [idle]

/-- A start looks at nothing in the slot but whether it is running. -/
theorem Sound.start_freed (h : life.Sound) (hidle : ¬ life.engine.Busy) (program : Program) :
    life.engine.start program = Engine.start { life.engine with slot := none } program := by
  have hnot : life.engine.isRunning ≠ true := fun hrunning => hidle (h.isRunning.mp hrunning)
  have hempty : Engine.isRunning { life.engine with slot := none } ≠ true := by
    simp [Engine.isRunning, Engine.running?]
  unfold Engine.start
  rw [if_neg hnot, if_neg hempty]

theorem Sound.start_begins (h : life.Sound) {program : Program} {named : String}
    (hstart : (life.engine.start program).2 = .ok named) :
    (life.engine.start program).1.bench.Active life.engine.bench.runs.length := by
  have hstarted := Engine.started h.fit program
  generalize (life.engine.start program).1 = engine, (life.engine.start program).2 = answer
    at hstarted hstart
  cases hstarted with
  | refused running => cases hstart
  | failed idle later other => cases hstart
  | @began bench ready name now logFile idle later accepted =>
    refine ⟨.fresh (.prepare name ready life.engine.config.runSettings now) logFile, ?_, rfl⟩
    dsimp only
    rw [bench.run?_start, if_pos later.continues.length.symm]

theorem Sound.stop_refused_iff (h : life.Sound) (limit : Nat) :
    (life.engine.stop limit).2 = .error .notRunning ↔ ¬ life.engine.Busy := by
  rw [← h.running?_eq_none]
  have hstopped := Engine.stopped h.fit limit
  generalize (life.engine.stop limit).1 = engine, (life.engine.stop limit).2 = answer at hstopped
  cases hstopped with
  | refused idle => simp [idle]
  | waited running later => simp [running]

/-- Whoever stops a run and waits long enough is told how it has ended. -/
theorem Sound.stop_answers (h : life.Sound) (hbusy : life.engine.Busy) :
    ∃ enough, ∀ limit, enough ≤ limit →
      ∃ ending, (life.engine.stop limit).2 = .ok (some ending) := by
  obtain ⟨i, hactive⟩ := hbusy
  obtain ⟨live, hlive, -⟩ := id hactive
  obtain ⟨enough, hfinished⟩ := h.fit.isFinished_stop hlive
  refine ⟨enough, fun limit hlimit => ?_⟩
  have hend := hfinished limit hlimit
  obtain ⟨after, hafter, -⟩ := (h.fit.later_stop i limit).continues.run i live hlive
  obtain ⟨ending, hending⟩ : ∃ ending, after.ending? = some ending := by
    simpa [Bench.isFinished, hafter, LiveRun.isFinished, Option.isSome_iff_exists] using hend
  refine ⟨ending, ?_⟩
  simp [Engine.stop, h.running?.mpr hactive, Bench.ending?, hafter, hending]

/-- The ending of a run, whenever it is known, is that of the run that has been started. -/
theorem Sound.endsWith (h : life.Sound) {live : LiveRun}
    (hlive : life.engine.bench.run? i = some live) {ending : Ending}
    (hending : life.engine.bench.ending? i = some ending) : life.EndsWith i live ending := by
  have hended : live.ending? = some ending := by simpa [Bench.ending?, hlive] using hending
  obtain ⟨hprogram, hsettings⟩ := h.programs i live hlive
  obtain ⟨⟨-, htimed, hshown, -, -⟩, -⟩ := h.fit live (List.mem_of_getElem? hlive)
  rcases LiveRun.ending_cases hended with ⟨hbroken, rfl⟩ | ⟨outcome, rfl, houtcome, -⟩
  · right
    have hlength := htimed.2 hbroken
    have hsame := congrArg RunSettings.tickLength hsettings
    exact ⟨rfl, hsame.symm.trans hlength⟩
  · left
    have houtcome := (Run.phase_of_outcome houtcome).2
    rw [houtcome]
    exact ⟨_, rfl, rfl, hprogram.trans (congrArg some hshown.symm)⟩

theorem Sound.stop_hands (h : life.Sound) {live : LiveRun}
    (hlive : life.engine.bench.run? i = some live) (hactive : life.engine.bench.Active i)
    {limit : Nat} {ending : Ending} (hstop : (life.engine.stop limit).2 = .ok (some ending)) :
    (life.engine.stop limit).1.bench.ending? i = some ending ∧ life.EndsWith i live ending := by
  have hrunning := h.running?.mpr hactive
  have hlater := h.fit.later_stop i limit
  have hended : (life.engine.bench.stop i limit).ending? i = some ending := by
    simpa [Engine.stop, hrunning] using hstop
  refine ⟨by simpa [Engine.stop, hrunning] using hended, ?_⟩
  obtain ⟨after, hafter, hcontinues⟩ := hlater.continues.run i live hlive
  have hname := congrArg RunIdentity.name hcontinues.identity
  have hends := (h.later hlater (.inl rfl)).endsWith hafter hended
  rcases hends with ⟨outcome, rfl, hsame, hprogram⟩ | hbroken
  · exact .inl ⟨outcome, rfl, hsame.trans hname, hprogram⟩
  · exact .inr hbroken

theorem Sound.stop_leaves (h : life.Sound) {limit : Nat}
    (answered : (life.engine.stop limit).2 ≠ .ok none) :
    (life.engine.stop limit).1.slot = none ∧ ¬ (life.engine.stop limit).1.Busy := by
  have hslot : (life.engine.stop limit).1.slot = none := by
    unfold Engine.stop
    split <;> rfl
  refine ⟨hslot, ?_⟩
  rintro ⟨j, hactive⟩
  have hthere := (h.stop answered).slot j hactive
  simp [Life.stop, hslot] at hthere

theorem Sound.status_none_iff (h : life.Sound) :
    life.engine.status? = none ↔ ¬ life.engine.Busy := by
  rw [← h.running?_eq_none]
  unfold Engine.status?
  cases hrunning : life.engine.running? with
  | none => simp
  | some i =>
    obtain ⟨live, hlive, -⟩ := h.running?.mp hrunning
    simp [hlive]

theorem Sound.status_some (h : life.Sound) {live : LiveRun}
    (hlive : life.engine.bench.run? i = some live) (hactive : life.engine.bench.Active i) :
    life.engine.status? = some live.run.status ∧
      life.started[i]? = some live.run.status.program := by
  refine ⟨?_, ?_⟩
  · simp [Engine.status?, h.running?.mpr hactive, hlive]
  · have hshown := (h.fit live (List.mem_of_getElem? hlive)).1.shown
    exact (h.programs i live hlive).1.trans (congrArg some hshown.symm)

/-- Whatever is called in whatever order, and whenever runs end: at most one run is active; a start
is refused if and only if one is, and then changes nothing; a stop is refused if and only if none
is, and otherwise comes back with the ending of the active run and leaves the engine idle; a status
is shown if and only if a run is active, and then with its program; a run that has ended is in
nobody's way; and no two callers are told how the same run has ended. -/
theorem one_run_at_a_time (h : life.Reached) : life.Lawful := by
  have hs := h.sound
  exact {
    one_active := fun bench hlater i j => hs.one_active hlater
    running_iff := hs.isRunning
    start_refused_iff := hs.start_refused_iff
    start_refused := fun hbusy program => by
      rw [Engine.start_of_running (hs.isRunning.mpr hbusy)]
    start_freed := hs.start_freed
    start_begins := fun program name => hs.start_begins
    stop_refused_iff := hs.stop_refused_iff
    stop_answers := hs.stop_answers
    stop_hands := fun i live hlive hactive limit ending => hs.stop_hands hlive hactive
    stop_leaves := fun limit => hs.stop_leaves
    status_none_iff := hs.status_none_iff
    status_some := fun i live => hs.status_some
    handed_once := hs.once
    handed_true := fun i ending hmem => (hs.told i ending hmem).1 }

/-- An engine that has started one program and nothing else. -/
def resting : Life :=
  let engine := Engine.fresh Storage.bareTree .idle
  (fresh engine.config engine.bench).start Controller.oneHeatedRest

theorem reached_resting : resting.Reached :=
  ⟨_, 1700000000, ⟨""⟩, Storage.bareTree, .idle, .single (.start Controller.oneHeatedRest)⟩

/-- A second start is refused while the rest is running, and whoever stops it is told so. -/
theorem running_rest_is_stopped :
    resting.Lawful ∧ resting.engine.isRunning = true ∧
      (resting.engine.start Controller.oneHeatedRest).2 = .error .alreadyRunning ∧
      (∃ enough, ∀ limit, enough ≤ limit →
        ∃ ending, (resting.engine.stop limit).2 = .ok (some ending)) ∧
      (resting.stop 0).handed.map Prod.fst = [0] := by
  have hlawful := one_run_at_a_time reached_resting
  obtain ⟨hrunning, htold⟩ : resting.engine.isRunning = true ∧
      (resting.stop 0).handed.map Prod.fst = [0] := by decide +kernel
  have hbusy := hlawful.running_iff.mp hrunning
  exact ⟨hlawful, hrunning, (hlawful.start_refused_iff _).mpr hbusy, hlawful.stop_answers hbusy, htold⟩

end Life
end DryKiln
