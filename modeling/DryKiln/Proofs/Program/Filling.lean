-- What the defaults do to a program. They fill its gaps and leave all else as it is; a gap counts
-- as off until it is filled, and a filled program is accepted exactly if the gaps could have stayed
-- off, since neither what the defaults put there nor "off" has a fault of its own.
import DryKiln.Proofs.Program.Admission

namespace DryKiln

theorem PerChannel.ext_get {α : Type} {table other : PerChannel α}
    (h : ∀ channel, table.get channel = other.get channel) : table = other := by
  obtain ⟨heater, fan, humidifier⟩ := table
  obtain ⟨heater', fan', humidifier'⟩ := other
  obtain rfl : heater = heater' := h .heater
  obtain rfl : fan = fan' := h .fan
  obtain rfl : humidifier = humidifier' := h .humidifier
  rfl

theorem bind_eq_error_iff {ε α β : Type} {x : Except ε α} {f : α → Except ε β} {fault : ε} :
    x >>= f = .error fault ↔ x = .error fault ∨ ∃ a, x = .ok a ∧ f a = .error fault := by
  cases x with
  | error found => simp [bind, Except.bind]
  | ok a => simp [bind, Except.bind]

theorem throw_eq_error_iff {ε : Type} {p : Prop} [Decidable p] {fault found : ε} :
    (if p then throw fault else pure () : Except ε Unit) = .error found ↔ p ∧ fault = found := by
  by_cases h : p <;> simp [h, throw, throwThe, MonadExceptOf.throw, pure, Except.pure]

theorem throw_or_eq_error_iff {ε : Type} {p : Prop} [Decidable p] {fault found : ε}
    {rest : Unit → Except ε Unit} :
    (if p then (do let r ← throw fault; rest r) else rest ()) = .error found ↔
      p ∧ fault = found ∨ ¬ p ∧ rest () = .error found := by
  by_cases h : p <;> simp [h, throw, throwThe, MonadExceptOf.throw, bind, Except.bind]

/-! ## Gaps -/

namespace Step

/-- The step with a fixed zero in every phase that is not set. -/
def withOff (step : Step) : Step :=
  { step with phases := step.phases.map fun phase => some (phase.getD (.constant 0)) }

/-- No phase is left open. -/
def IsFull (step : Step) : Prop :=
  ∀ channel, ∃ regulation, step.phases.get channel = some regulation

/-- The step is the other one but for gaps that are filled. What is read of a phase may differ only
for the heater, and not while cooling. -/
structure Completes (filled step : Step) : Prop where
  name : filled.name = step.name
  kind : filled.kind = step.kind
  target : filled.target = step.target
  runtime : filled.runtime = step.runtime
  set : ∀ channel regulation, step.phases.get channel = some regulation →
    filled.phases.get channel = some regulation
  phase : ∀ channel, (channel ≠ .heater ∨ step.kind = .cooling) →
    filled.phase channel = step.phase channel

variable (defaults : Defaults) (step : Step)

theorem isFull_fill : (step.fill defaults).IsFull :=
  fun channel => ⟨_, step.get_phases_fill defaults channel⟩

theorem fill_of_isFull {step : Step} (h : step.IsFull) : step.fill defaults = step := by
  have hphases : (step.fill defaults).phases = step.phases := by
    apply PerChannel.ext_get
    intro channel
    obtain ⟨regulation, hset⟩ := h channel
    rw [get_phases_fill, hset, Option.getD_some]
  exact congrArg (fun phases => { step with phases }) hphases

/-- Where the heater is off by default, and for the fan and the humidifier, a gap is filled with
what it counts as anyway. -/
theorem defaultPhase_eq_off {channel : Channel} {kind : StepKind}
    (h : channel ≠ .heater ∨ kind = .cooling) : defaultPhase defaults kind channel = .off := by
  cases channel with
  | heater =>
    obtain rfl : kind = .cooling := h.resolve_left fun hother => hother rfl
    rfl
  | fan => rfl
  | humidifier => rfl

theorem completes_fill : (step.fill defaults).Completes step where
  name := rfl
  kind := rfl
  target := rfl
  runtime := rfl
  set channel regulation hset := by rw [get_phases_fill, hset, Option.getD_some]
  phase channel hoff := by
    rw [phase_of_get (step.get_phases_fill defaults channel), defaultPhase_eq_off defaults hoff]
    rfl

/-! ## The check of a filled step -/

theorem get_phases_withOff (channel : Channel) :
    step.withOff.phases.get channel = some ((step.phases.get channel).getD (.constant 0)) :=
  PerChannel.get_map _ _ channel

theorem fits_off (channel : Channel) : step.Fits channel (.constant 0) where
  percent percent hzero := by
    cases hzero
    decide
  band low high hband := by cases hband
  constant _ := rfl

/-- What the defaults put into a gap has no fault, unless it is a band whose deltas are the wrong
way round. -/
theorem fits_defaultPhase {defaults : Defaults} (h : ¬ defaults.highDelta < defaults.lowDelta)
    (channel : Channel) : step.Fits channel (defaultPhase defaults step.kind channel) := by
  by_cases hoff : channel ≠ .heater ∨ step.kind = .cooling
  · rw [defaultPhase_eq_off defaults hoff]
    exact step.fits_off channel
  · obtain ⟨rfl, hwarm⟩ : channel = .heater ∧ step.kind ≠ .cooling := by simpa using hoff
    refine ⟨fun percent hconstant => ?_, fun low high hband => ?_, fun hmust => ?_⟩
    · cases hkind : step.kind <;> simp [defaultPhase, hkind] at hconstant hwarm
    · obtain ⟨-, -, rfl, rfl⟩ := (step.defaultPhase_eq_band_iff defaults _ _ _).mp hband
      exact h
    · simp [mustBeConstant, hwarm] at hmust

/-- The check of a phase looks at the step's name and kind and at that phase. -/
theorem checkPhase_congr {first second : Step} {channel : Channel}
    (hname : first.name = second.name) (hkind : first.kind = second.kind)
    (hphase : first.phases.get channel = second.phases.get channel) :
    first.checkPhase channel = second.checkPhase channel := by
  have hregulation : ∀ regulation, first.checkRegulation channel regulation =
      second.checkRegulation channel regulation := by
    intro regulation
    cases regulation <;> simp only [checkRegulation, hname]
  have hmust : first.mustBeConstant channel = second.mustBeConstant channel := by
    rw [mustBeConstant, mustBeConstant, hkind]
  unfold checkPhase
  rw [hphase]
  cases second.phases.get channel with
  | none => simp only [hname]
  | some regulation => simp only [hregulation, hmust, hname]

theorem checkPhase_fill {defaults : Defaults} (h : ¬ defaults.highDelta < defaults.lowDelta)
    (channel : Channel) :
    (step.fill defaults).checkPhase channel = step.withOff.checkPhase channel := by
  have hfilled := step.get_phases_fill defaults channel
  have hoff := step.get_phases_withOff channel
  cases hphase : step.phases.get channel with
  | some regulation =>
    rw [hphase, Option.getD_some] at hfilled hoff
    exact checkPhase_congr rfl rfl (hfilled.trans hoff.symm)
  | none =>
    rw [hphase, Option.getD_none] at hfilled hoff
    have hleft : (step.fill defaults).checkPhase channel = .ok () :=
      checkPhase_eq_ok_iff.mpr ⟨_, hfilled, (step.fill defaults).fits_defaultPhase h channel⟩
    have hright : step.withOff.checkPhase channel = .ok () :=
      checkPhase_eq_ok_iff.mpr ⟨_, hoff, step.withOff.fits_off channel⟩
    rw [hleft, hright]

theorem check_fill {defaults : Defaults} (h : ¬ defaults.highDelta < defaults.lowDelta) :
    (step.fill defaults).check = step.withOff.check := by
  have hgoal : (step.fill defaults).checkGoal = step.withOff.checkGoal := rfl
  simp only [check, checkPhase_fill step h, hgoal]

/-! ## Missing phases -/

theorem checkRegulation_ne_missingPhase (channel found : Channel) (regulation : Regulation)
    (name : String) :
    step.checkRegulation channel regulation ≠ .error (.missingPhase name found) := by
  cases regulation with
  | constant percent => simp [checkRegulation, throw_eq_error_iff]
  | band low high => simp [checkRegulation, throw_eq_error_iff]
  | feedback gains => simp [checkRegulation, pure, Except.pure]

theorem checkGoal_ne_missingPhase (found : Channel) (name : String) :
    step.checkGoal ≠ .error (.missingPhase name found) := by
  unfold checkGoal
  cases step.target <;>
    simp only [ne_eq, throw_or_eq_error_iff, throw_eq_error_iff, reduceCtorEq, and_false, or_self,
      not_false_eq_true]

/-- A phase is reported as missing only where there is a gap. -/
theorem checkPhase_eq_missingPhase {step : Step} {channel found : Channel} {name : String}
    (h : step.checkPhase channel = .error (.missingPhase name found)) :
    step.phases.get channel = none := by
  unfold checkPhase at h
  split at h
  · assumption
  · rename_i regulation _
    rcases bind_eq_error_iff.mp h with hfault | ⟨_, _, hconstant⟩
    · exact absurd hfault (step.checkRegulation_ne_missingPhase channel found regulation name)
    · cases (throw_eq_error_iff.mp hconstant).2

theorem check_eq_missingPhase {step : Step} {found : Channel} {name : String}
    (h : step.check = .error (.missingPhase name found)) :
    ∃ channel, step.phases.get channel = none := by
  rcases bind_eq_error_iff.mp h with h | ⟨_, _, h⟩
  · exact ⟨_, checkPhase_eq_missingPhase h⟩
  rcases bind_eq_error_iff.mp h with h | ⟨_, _, h⟩
  · exact ⟨_, checkPhase_eq_missingPhase h⟩
  rcases bind_eq_error_iff.mp h with h | ⟨_, _, h⟩
  · exact ⟨_, checkPhase_eq_missingPhase h⟩
  exact absurd h (step.checkGoal_ne_missingPhase found name)

theorem IsFull.check_ne_missingPhase {step : Step} (h : step.IsFull) (name : String)
    (found : Channel) : step.check ≠ .error (.missingPhase name found) := by
  intro hmissing
  obtain ⟨channel, hgap⟩ := check_eq_missingPhase hmissing
  obtain ⟨regulation, hset⟩ := h channel
  cases hgap.symm.trans hset

end Step

/-! ## Programs -/

namespace Program

/-- The program with a fixed zero in every phase that is not set. -/
def withOff (program : Program) : Program :=
  { program with steps := program.steps.map Step.withOff }

/-- The program is the other one but for gaps that are filled, step by step. -/
structure Completes (filled program : Program) : Prop where
  name : filled.name = program.name
  maxRuntime : filled.maxRuntime = program.maxRuntime
  steps : List.Forall₂ Step.Completes filled.steps program.steps

theorem completes_fill (program : Program) (defaults : Defaults) :
    (program.fill defaults).Completes program where
  name := rfl
  maxRuntime := rfl
  steps := by
    rw [fill, List.forall₂_map_left_iff, List.forall₂_same]
    exact fun step _ => step.completes_fill defaults

theorem fill_of_isFull {program : Program} (h : ∀ step ∈ program.steps, step.IsFull)
    (defaults : Defaults) : program.fill defaults = program := by
  have hsteps : program.steps.map (Step.fill defaults) = program.steps.map id :=
    List.map_congr_left fun step hstep => Step.fill_of_isFull defaults (h step hstep)
  rw [List.map_id] at hsteps
  exact congrArg (fun steps => { program with steps }) hsteps

theorem isFull_of_mem_fill {program : Program} {defaults : Defaults} {filled : Step}
    (h : filled ∈ (program.fill defaults).steps) : filled.IsFull := by
  obtain ⟨step, _, rfl⟩ := List.mem_map.mp h
  exact step.isFull_fill defaults

theorem forM_eq_error {ε α : Type} {f : α → Except ε Unit} {values : List α} {fault : ε}
    (h : values.forM f = .error fault) : ∃ value ∈ values, f value = .error fault := by
  induction values with
  | nil => cases h
  | cons value values ih =>
    rcases bind_eq_error_iff.mp h with hfirst | ⟨_, _, hrest⟩
    · exact ⟨value, List.mem_cons_self, hfirst⟩
    · obtain ⟨other, hother, hfault⟩ := ih hrest
      exact ⟨other, List.mem_cons_of_mem value hother, hfault⟩

/-- A program without gaps lacks no phase, whatever else may be wrong with it. -/
theorem check_ne_missingPhase {program : Program} (h : ∀ step ∈ program.steps, step.IsFull)
    (name : String) (channel : Channel) : program.check ≠ .error (.missingPhase name channel) := by
  simp only [check, ne_eq, throw_or_eq_error_iff, reduceCtorEq, and_false, false_or]
  rintro ⟨-, -, hmissing⟩
  obtain ⟨step, hstep, hfault⟩ := forM_eq_error hmissing
  exact (h step hstep).check_ne_missingPhase name channel hfault

/-- The check finds the same fault in a program, or none, when its gaps are filled as when they are
off. -/
theorem check_fill (program : Program) {defaults : Defaults}
    (h : ¬ defaults.highDelta < defaults.lowDelta) :
    (program.fill defaults).check = program.withOff.check := by
  have hsteps : ∀ steps : List Step, (steps.map (Step.fill defaults)).forM Step.check =
      (steps.map Step.withOff).forM Step.check := by
    intro steps
    induction steps with
    | nil => rfl
    | cons step steps ih =>
      exact congrArg₂ (fun first rest => first >>= fun _ => rest) (step.check_fill h) ih
  simp only [check, fill, withOff, hsteps, List.map_eq_nil_iff]

/-! ## The law -/

/-- The defaults fill the gaps of a program and nothing else. Other defaults find no gap in it
afterwards, and none in a program that has been accepted; all that is set stays as it is, and so
does what is read of the fan, the humidifier and a cooling heater. No phase is missing then, and if
the default band is not the wrong way round, the check finds just the fault that it would find if
every gap were a fixed zero, or none. -/
theorem defaults_only_fill_gaps (program : Program) (defaults others : Defaults) :
    (program.fill defaults).fill others = program.fill defaults ∧
      (program.check = .ok () → program.fill defaults = program) ∧
      (program.fill defaults).Completes program ∧
      (∀ step channel, (program.fill defaults).check ≠ .error (.missingPhase step channel)) ∧
      (¬ defaults.highDelta < defaults.lowDelta →
        (program.fill defaults).check = program.withOff.check) := by
  refine ⟨fill_of_isFull (fun step => isFull_of_mem_fill) others, ?_,
    program.completes_fill defaults, check_ne_missingPhase fun step => isFull_of_mem_fill,
    program.check_fill⟩
  intro haccepted
  apply fill_of_isFull
  intro step hstep channel
  obtain ⟨regulation, hset, _⟩ := ((check_eq_ok_iff.mp haccepted).steps step hstep).phases channel
  exact ⟨regulation, hset⟩

/-- A program with a gap in every step, and a fan that is set. -/
def gappyProgram : Program where
  name := "oak"
  steps := [⟨"up", .heating, some 60, none, ⟨none, some (.constant 30), none⟩⟩,
    ⟨"hold", .acclimate, some 60, some 3600, .fill none⟩,
    ⟨"down", .cooling, some 30, none, .fill none⟩]
  maxRuntime := none

/-- The standard defaults fill it so that it is accepted, as it would be with all gaps off; after
that defaults with a band of NaN leave it as it is. -/
theorem gappy_program_is_filled_once :
    let full := gappyProgram.fill .standard
    ¬ Defaults.standard.highDelta < Defaults.standard.lowDelta ∧ full ≠ gappyProgram ∧
      full.check = .ok () ∧ gappyProgram.withOff.check = .ok () ∧
      full.fill nanConfig.defaults = full := by
  intro full
  have hband : ¬ Defaults.standard.highDelta < Defaults.standard.lowDelta := by decide +kernel
  have hoff : gappyProgram.withOff.check = .ok () := by decide +kernel
  have hfull : full.check = .ok () :=
    ((defaults_only_fill_gaps gappyProgram .standard .standard).2.2.2.2 hband).trans hoff
  have hsame : full.fill nanConfig.defaults = full :=
    (defaults_only_fill_gaps full nanConfig.defaults .standard).2.1 hfull
  exact ⟨hband, by decide +kernel, hfull, hoff, hsame⟩

end Program
end DryKiln
