-- What the check of a program asks for, as conditions on the program. A check that finds no fault
-- says all of them, and a program that meets them has no fault.
import DryKiln.Program.Admission
import DryKiln.Proofs.Document.Fields

namespace DryKiln

/-- A check with one more condition in front. -/
theorem throw_or_eq_ok {ε : Type} {p : Prop} [Decidable p] {fault : ε}
    {rest : Unit → Except ε Unit} :
    (if p then (do let r ← throw fault; rest r) else rest ()) = .ok () ↔
      ¬ p ∧ rest () = .ok () := by
  by_cases h : p <;> simp [h, throw, throwThe, MonadExceptOf.throw, bind, Except.bind]

theorem throw_eq_ok {ε : Type} {p : Prop} [Decidable p] {fault : ε} :
    (if p then throw fault else pure () : Except ε Unit) = .ok () ↔ ¬ p := by
  by_cases h : p <;> simp [h, throw, throwThe, MonadExceptOf.throw, pure, Except.pure]

theorem andThen_eq_ok {ε : Type} {first : Except ε Unit} {rest : Unit → Except ε Unit} :
    first >>= rest = .ok () ↔ first = .ok () ∧ rest () = .ok () := by
  rw [bind_eq_ok]
  exact ⟨fun ⟨(), h⟩ => h, fun h => ⟨(), h⟩⟩

/-! ## Steps -/

namespace Step

/-- What a phase of a step has to be like. -/
structure Fits (step : Step) (channel : Channel) (regulation : Regulation) : Prop where
  percent : ∀ percent, regulation = .constant percent → percent ≤ 100
  band : ∀ low high, regulation = .band low high → ¬ high < low
  constant : step.mustBeConstant channel = true → regulation.isConstant = true

/-- What a step has to be like. -/
structure Accepted (step : Step) : Prop where
  phases : ∀ channel, ∃ regulation, step.phases.get channel = some regulation ∧
    step.Fits channel regulation
  target_le : ∀ target, step.target = some target → ¬ maxTarget < target
  target : step.kind ≠ .cooling → step.target.isSome = true
  runtime : step.kind = .acclimate → step.runtime.isSome = true

theorem checkRegulation_eq_ok_iff {step : Step} {channel : Channel} {regulation : Regulation} :
    step.checkRegulation channel regulation = .ok () ↔
      (∀ percent, regulation = .constant percent → percent ≤ 100) ∧
        ∀ low high, regulation = .band low high → ¬ high < low := by
  cases regulation with
  | constant percent => simp [checkRegulation, throw_eq_ok]
  | band low high => simp [checkRegulation, throw_eq_ok]
  | feedback gains => simp [checkRegulation, pure, Except.pure]

theorem checkPhase_eq_ok_iff {step : Step} {channel : Channel} :
    step.checkPhase channel = .ok () ↔ ∃ regulation, step.phases.get channel = some regulation ∧
      step.Fits channel regulation := by
  unfold checkPhase
  cases step.phases.get channel with
  | none => simp [throw, throwThe, MonadExceptOf.throw]
  | some regulation =>
    simp only [andThen_eq_ok, checkRegulation_eq_ok_iff, throw_eq_ok, Option.some.injEq,
      exists_eq_left']
    constructor
    · rintro ⟨⟨hpercent, hband⟩, hconstant⟩
      refine ⟨hpercent, hband, fun hmust => ?_⟩
      simpa [hmust] using hconstant
    · rintro ⟨hpercent, hband, hconstant⟩
      refine ⟨⟨hpercent, hband⟩, ?_⟩
      by_cases hmust : step.mustBeConstant channel = true
      · simp [hconstant hmust]
      · simp [hmust]

theorem checkGoal_eq_ok_iff {step : Step} :
    step.checkGoal = .ok () ↔
      (∀ target, step.target = some target → ¬ maxTarget < target) ∧
        (step.kind ≠ .cooling → step.target.isSome = true) ∧
        (step.kind = .acclimate → step.runtime.isSome = true) := by
  unfold checkGoal
  cases step.target with
  | none =>
    simp only [throw_or_eq_ok, throw_eq_ok]
    simp [Option.isSome_iff_ne_none]
  | some target =>
    simp only [throw_or_eq_ok, throw_eq_ok]
    simp [Option.isSome_iff_ne_none]

theorem check_eq_ok_iff {step : Step} : step.check = .ok () ↔ step.Accepted := by
  have hchannels : ∀ P : Channel → Prop,
      (∀ channel, P channel) ↔ P .heater ∧ P .fan ∧ P .humidifier := fun P =>
    ⟨fun h => ⟨h _, h _, h _⟩, fun ⟨h₁, h₂, h₃⟩ channel => by cases channel <;> assumption⟩
  simp only [check, andThen_eq_ok, checkPhase_eq_ok_iff, checkGoal_eq_ok_iff]
  constructor
  · rintro ⟨hheater, hfan, hhumidifier, htargetLe, htarget, hruntime⟩
    exact ⟨(hchannels _).mpr ⟨hheater, hfan, hhumidifier⟩, htargetLe, htarget, hruntime⟩
  · rintro ⟨hphases, htargetLe, htarget, hruntime⟩
    exact ⟨hphases _, hphases _, hphases _, htargetLe, htarget, hruntime⟩

theorem phase_of_get {step : Step} {channel : Channel} {regulation : Regulation}
    (h : step.phases.get channel = some regulation) : step.phase channel = regulation := by
  rw [phase, h, Option.getD_some]

/-- Where only a fixed percentage is allowed, there is one. -/
theorem Accepted.constant {step : Step} (h : step.Accepted) {channel : Channel}
    (hmust : step.mustBeConstant channel = true) :
    ∃ percent, step.phases.get channel = some (.constant percent) := by
  obtain ⟨regulation, hphase, hfits⟩ := h.phases channel
  have hconstant := hfits.constant hmust
  cases regulation with
  | constant percent => exact ⟨percent, hphase⟩
  | band low high => cases hconstant
  | feedback gains => cases hconstant

theorem Accepted.percent_le {step : Step} (h : step.Accepted) {channel : Channel} {percent : UInt8}
    (hconstant : step.phase channel = .constant percent) : percent ≤ 100 := by
  obtain ⟨regulation, hphase, hfits⟩ := h.phases channel
  exact hfits.percent percent ((phase_of_get hphase).symm.trans hconstant)

end Step

/-! ## Programs -/

namespace Program

/-- What a program has to be like. -/
structure Accepted (program : Program) : Prop where
  name : ∃ c ∈ program.name.toList, isBlank c = false
  steps_ne_nil : program.steps ≠ []
  steps : ∀ step ∈ program.steps, step.Accepted

theorem forM_eq_ok_iff {ε α : Type} {f : α → Except ε Unit} {values : List α} :
    values.forM f = .ok () ↔ ∀ value ∈ values, f value = .ok () := by
  induction values with
  | nil => exact iff_of_true rfl (by simp)
  | cons value values ih =>
    rw [List.forall_mem_cons, ← ih]
    exact andThen_eq_ok

theorem check_eq_ok_iff {program : Program} : program.check = .ok () ↔ program.Accepted := by
  have hname : ¬ trimBlank program.name.toList = [] ↔
      ∃ c ∈ program.name.toList, isBlank c = false := by
    simp [trimBlank_eq_nil_iff]
  simp only [check, throw_or_eq_ok, forM_eq_ok_iff, Step.check_eq_ok_iff, hname]
  exact ⟨fun ⟨hname, hsome, hsteps⟩ => ⟨hname, hsome, hsteps⟩,
    fun h => ⟨h.name, h.steps_ne_nil, h.steps⟩⟩

/-- A program is run as it has been filled, if that is accepted. -/
theorem ready_eq_ok_iff {program ready : Program} {defaults : Defaults} :
    program.ready defaults = .ok ready ↔
      program.fill defaults = ready ∧ (program.fill defaults).Accepted := by
  rw [← check_eq_ok_iff, Program.ready]
  cases (program.fill defaults).check <;> simp [Except.map]

end Program
end DryKiln
