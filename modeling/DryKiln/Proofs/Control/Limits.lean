-- What the time limits of a program do. A limit is compared as a signed machine word: below 2^63 it
-- is the number of seconds that it says, and from there on it is a number below zero, so that it is
-- exceeded before it has begun. The time that it is compared with is a signed word as well.
import DryKiln.Proofs.Control.Stay
import DryKiln.Proofs.Program.Accepted
import DryKiln.Proofs.Time.Clock
import Mathlib.Algebra.Group.Int.Defs
import Mathlib.Algebra.Group.Nat.Defs

namespace DryKiln

/-- A duration as a signed word, read off the number of seconds. -/
theorem signedSeconds_eq (limit : UInt64) : signedSeconds limit =
    if limit.toNat < 2 ^ 63 then (limit.toNat : Int) else (limit.toNat : Int) - 2 ^ 64 := by
  rw [signedSeconds, Int64.toInt, UInt64.toBitVec_toInt64, BitVec.toInt_eq_toNat_cond,
    UInt64.toNat_toBitVec]
  by_cases h : limit.toNat < 2 ^ 63
  · rw [if_pos h, if_pos (by omega)]
  · rw [if_neg h, if_neg (by omega)]
    rfl

/-- All time limits of a program. -/
def Program.limits (program : Program) : List UInt64 :=
  program.maxRuntime.toList ++ program.steps.filterMap Step.runtime

/-- The run has taken longer than its program allows, with the limit read as a number of seconds. -/
def Program.IsLate (read : UInt64 → Int) (program : Program) (taken : Int) : Prop :=
  ∃ limit, program.maxRuntime = some limit ∧ read limit < taken

/-- The time of a step is up, with the limit read as a number of seconds. -/
def Step.IsUp (read : UInt64 → Int) (step : Step) (taken : Int) : Prop :=
  ∃ limit, step.runtime = some limit ∧ read limit ≤ taken

/-- The second of a tick. -/
def ControlEvent.tick? : ControlEvent → Option Int
  | tick now => some now
  | _ => none

/-- The seconds of the ticks among several events. -/
def ticksIn (events : List ControlEvent) : List Int := events.filterMap ControlEvent.tick?

theorem mem_ticksIn {events : List ControlEvent} {now : Int} (h : .tick now ∈ events) :
    now ∈ ticksIn events :=
  List.mem_filterMap.mpr ⟨_, h, rfl⟩

namespace Controller

/-! ## One tick -/

theorem overdue_iff {c : Controller} {now : Int} :
    c.overdue now = true ↔ c.program.IsLate signedSeconds (secondsSince c.startedAt now) := by
  unfold overdue Program.IsLate
  cases c.program.maxRuntime <;> simp

theorem elapsed_iff {c : Controller} {now : Int} {step : Step} :
    step.runtime.any (c.elapsed now) = true ↔
      step.IsUp signedSeconds (secondsSince c.stepStartedAt now) := by
  unfold Step.IsUp
  cases step.runtime <;> simp [elapsed]

/-- When a tick ends a run that is not in a step: if it has taken too long. -/
theorem failed_outside_iff {c : Controller} {now : Int} (hstage : c.stage.isStep = false)
    (active : c.stage.isTerminal = false) :
    (c.tick now).1.stage = .failed ↔ c.stage ≠ .start ∧ c.overdue now = true := by
  have ht := c.ticked now
  generalize (c.tick now).1 = next, (c.tick now).2 = commands at ht
  cases ht with
  | ended stage => cases active.symm.trans stage
  | begun stage => exact iff_of_false (by simp) fun h => h.1 stage
  | overran started _ late => exact iff_of_true rfl ⟨started, late⟩
  | waited stage inTime | lagged stage inTime | heated stage inTime =>
    exact iff_of_false (by simp [refreshed, stage]) (by simp [inTime])
  | warmed _ inTime | caughtUp _ inTime | finished _ inTime =>
    exact iff_of_false (by simp) (by simp [inTime])
  | entered step _ inTime =>
    refine iff_of_false ?_ (by simp [inTime])
    cases step.kind <;> simp [Stage.ofKind]
  | left stage | regulated stage => cases hstage.symm.trans stage
  | gaveUp _ late =>
    rw [late.1] at hstage
    cases hstage

/-- When a tick ends a run that is in a step, and when it goes on to the next one. -/
theorem stage_in_step_iff {c : Controller} {now : Int} (h : c.stage.isStep = true) :
    ((c.tick now).1.stage = .failed ↔ c.overdue now = true ∨ c.StepFailed now) ∧
      ((c.tick now).1.stage = .nextStep ↔ c.overdue now = false ∧ c.StepOver now) := by
  have ht := tickedInStep now h
  generalize (c.tick now).1 = next, (c.tick now).2 = commands at ht
  cases ht with
  | overran late => exact ⟨iff_of_true rfl (Or.inl late), iff_of_false (by simp) (by simp [late])⟩
  | left inTime complete =>
    refine ⟨iff_of_false (by simp) ?_, iff_of_true rfl ⟨inTime, complete⟩⟩
    rintro (late | failed)
    · cases inTime.symm.trans late
    · exact not_stepFailed_of_stepOver complete failed
  | gaveUp inTime failed =>
    refine ⟨iff_of_true rfl (Or.inr failed), iff_of_false (by simp) ?_⟩
    rintro ⟨_, complete⟩
    exact not_stepFailed_of_stepOver complete failed
  | regulated inTime goesOn holds =>
    have hstage : (c.regulate now).1.refreshed.stage = c.stage := c.regulate_stage now
    have hother : ∀ stage : Stage, stage.isStep = false →
        (c.regulate now).1.refreshed.stage ≠ stage := by
      rintro stage hstep rfl
      rw [hstage, h] at hstep
      cases hstep
    refine ⟨iff_of_false (hother _ rfl) ?_, iff_of_false (hother _ rfl) fun hover => goesOn hover.2⟩
    rintro (late | failed)
    · cases inTime.symm.trans late
    · exact holds failed

/-! ## The law -/

/-- The controller is in a step that it has entered at some second. -/
def InStepSince (c : Controller) (past : List ControlEvent) (step : Step) (entered : Int) : Prop :=
  (c.after past).step? = some step ∧
    ∃ before within, past = before ++ .tick entered :: within ∧ Stay c before entered within

/-- What a tick does about the limits of a program, with every limit and the time between two
readings of the clock read as numbers of seconds. -/
structure KeepsTime (read : UInt64 → Int) (between : Int → Int → Int) (program : Program)
    (start : Int) (past : List ControlEvent) (now : Int) : Prop where
  failed : ((new program).after past).stage.isTerminal = false →
    ((((new program).after past).tick now).1.stage = .failed ↔
      ((new program).after past).stage ≠ .start ∧ program.IsLate read (between start now) ∨
        ∃ step entered, InStepSince (new program) past step entered ∧ step.kind = .heating ∧
          step.IsUp read (between entered now) ∧ ∃ target, step.target = some target ∧
            ¬ target ≤ ((new program).after past).used.temperatures.reading.material)
  rested : ∀ step entered, InStepSince (new program) past step entered → step.kind = .acclimate →
    ((((new program).after past).tick now).1.stage = .nextStep ↔
      ¬ program.IsLate read (between start now) ∧ step.IsUp read (between entered now))
  cooled : ∀ step entered, InStepSince (new program) past step entered → step.kind = .cooling →
    ((((new program).after past).tick now).1.stage = .nextStep ↔
      ¬ program.IsLate read (between start now) ∧ (step.IsUp read (between entered now) ∨
        ∃ target, step.target = some target ∧
          ((new program).after past).used.temperatures.reading.material ≤ target))

/-- What is known of a controller in the middle of a step. -/
theorem InStepSince.known {program : Program} {past : List ControlEvent} {step : Step}
    {entered : Int} (h : InStepSince (new program) past step entered) :
    step ∈ program.steps ∧ ((new program).after past).stage = .ofKind step.kind ∧
      ((new program).after past).stepStartedAt = entered := by
  obtain ⟨hstep, before, within, rfl, hstay⟩ := h
  obtain ⟨found, _, hfound, hmem, hstage, _⟩ :=
    inside_step program _ (hstay.stays within List.prefix_rfl)
  obtain rfl := Option.some.inj (hstep.symm.trans hfound)
  exact ⟨hmem, hstage, hstay.stepStartedAt⟩

/-- The step has been entered by one of the ticks since the last start. -/
theorem InStepSince.entered_mem {program : Program} {early events : List ControlEvent}
    {start entered : Int} {step : Step}
    (h : InStepSince (new program) (early ++ .start start :: events) step entered) :
    entered ∈ ticksIn events := by
  obtain ⟨-, before, within, heq, hstay⟩ := h
  rcases List.append_eq_append_iff.mp heq with ⟨between, -, hevents⟩ | ⟨between, -, hwithin⟩
  · rcases List.cons_eq_append_iff.mp hevents with ⟨-, hcut⟩ | ⟨rest, -, rfl⟩
    · cases hcut
    · exact mem_ticksIn (by simp)
  · rcases List.cons_eq_append_iff.mp hwithin with ⟨-, hcut⟩ | ⟨rest, -, rfl⟩
    · cases hcut
    · -- a start in the middle of the step would have left it
      have hinside := hstay.stays (rest ++ [.start start]) (by simp)
      rw [← List.cons_append, ← List.append_assoc, after_concat] at hinside
      cases hinside

theorem exists_inStepSince {program : Program} {past : List ControlEvent}
    (h : ((new program).after past).stage.isStep = true) :
    ∃ step entered, InStepSince (new program) past step entered := by
  obtain ⟨step, _, hstep, _⟩ := inside_step program past h
  obtain ⟨before, entered, within, heq, hstay⟩ := exists_stay (c := new program) rfl h
  exact ⟨step, entered, hstep, before, within, heq, hstay⟩

namespace InStepSince

variable {program : Program} {past : List ControlEvent} {step : Step} {entered : Int}

theorem isStep (h : InStepSince (new program) past step entered) :
    ((new program).after past).stage.isStep = true := by
  rw [h.known.2.1, Stage.isStep_ofKind]

theorem stepFailed_iff (h : InStepSince (new program) past step entered) (now : Int) :
    ((new program).after past).StepFailed now ↔ step.kind = .heating ∧
      step.runtime.any (((new program).after past).elapsed now) = true ∧
        ¬ step.target.getD 0 ≤ ((new program).after past).used.temperatures.reading.material := by
  have hheat : Stage.ofKind step.kind = .heatUp ↔ step.kind = .heating := by
    cases step.kind <;> simp [Stage.ofKind]
  simp only [StepFailed, h.known.2.1, hheat, h.1, Option.some.injEq, exists_eq_left']
  exact and_congr_right fun _ => and_comm

theorem stepOver_acclimate_iff (h : InStepSince (new program) past step entered)
    (hkind : step.kind = .acclimate) (hruntime : step.runtime.isSome = true) (now : Int) :
    ((new program).after past).StepOver now ↔
      step.runtime.any (((new program).after past).elapsed now) = true := by
  obtain ⟨limit, hlimit⟩ := Option.isSome_iff_exists.mp hruntime
  simp only [StepOver, h.known.2.1, hkind, Stage.ofKind, h.1, Option.bind_some, hlimit,
    Option.getD_some, Option.any_some]

theorem stepOver_cooling_iff (h : InStepSince (new program) past step entered)
    (hkind : step.kind = .cooling) (now : Int) :
    ((new program).after past).StepOver now ↔
      step.runtime.any (((new program).after past).elapsed now) = true ∨
        ∃ target, step.target = some target ∧
          ((new program).after past).used.temperatures.reading.material ≤ target := by
  simp only [StepOver, h.known.2.1, hkind, Stage.ofKind, h.1, Option.some.injEq, forall_eq']
  apply or_congr_right
  cases step.target <;> simp

end InStepSince

/-! ## Limits and times that are read as the controller reads them -/

section Read

variable {read : UInt64 → Int} {between : Int → Int → Int} {program : Program}
  {past : List ControlEvent}

theorem overdue_iff_isLate (hread : ∀ limit ∈ program.limits, read limit = signedSeconds limit)
    (now : Int) : ((new program).after past).overdue now = true ↔
      program.IsLate read (secondsSince ((new program).after past).startedAt now) := by
  rw [overdue_iff, after_program]
  unfold Program.IsLate
  apply exists_congr
  intro limit
  apply and_congr_right
  intro hlimit
  rw [hread limit (List.mem_append_left _ (Option.mem_toList.mpr hlimit))]

theorem InStepSince.elapsed_iff_isUp {step : Step} {entered : Int}
    (hread : ∀ limit ∈ program.limits, read limit = signedSeconds limit)
    (h : InStepSince (new program) past step entered) (now : Int) :
    step.runtime.any (((new program).after past).elapsed now) = true ↔
      step.IsUp read (secondsSince entered now) := by
  obtain ⟨hmem, _, hentered⟩ := h.known
  rw [elapsed_iff, hentered]
  unfold Step.IsUp
  apply exists_congr
  intro limit
  apply and_congr_right
  intro hlimit
  rw [hread limit (List.mem_append_right _ (List.mem_filterMap.mpr ⟨step, hmem, hlimit⟩))]

/-- A heating step that gives up has had its time and does not have its target. -/
theorem InStepSince.stepFailed_iff_isUp {step : Step} {entered : Int} (haccepted : program.Accepted)
    (hread : ∀ limit ∈ program.limits, read limit = signedSeconds limit)
    (h : InStepSince (new program) past step entered) (now : Int) :
    ((new program).after past).StepFailed now ↔ step.kind = .heating ∧
      step.IsUp read (secondsSince entered now) ∧ ∃ target, step.target = some target ∧
        ¬ target ≤ ((new program).after past).used.temperatures.reading.material := by
  rw [h.stepFailed_iff, h.elapsed_iff_isUp hread]
  apply and_congr_right
  intro hkind
  obtain ⟨target, htarget⟩ := Option.isSome_iff_exists.mp
    ((haccepted.steps step h.known.1).target (by simp [hkind]))
  simp [htarget]

/-- Limits and times that are read as the controller reads them are kept to the second. -/
theorem keepsTime {start : Int} (now : Int) (haccepted : program.Accepted)
    (hstart : ((new program).after past).startedAt = start)
    (hread : ∀ limit ∈ program.limits, read limit = signedSeconds limit)
    (htaken : between start now = secondsSince start now)
    (hspent : ∀ step entered, InStepSince (new program) past step entered →
      between entered now = secondsSince entered now) :
    KeepsTime read between program start past now := by
  have hlate : ((new program).after past).overdue now = true ↔
      program.IsLate read (between start now) := by
    rw [overdue_iff_isLate hread, hstart, htaken]
  have hup : ∀ step entered, InStepSince (new program) past step entered →
      (step.runtime.any (((new program).after past).elapsed now) = true ↔
        step.IsUp read (between entered now)) := by
    intro step entered hin
    rw [hin.elapsed_iff_isUp hread, hspent step entered hin]
  have hfails : ∀ step entered, InStepSince (new program) past step entered →
      (((new program).after past).StepFailed now ↔ step.kind = .heating ∧
        step.IsUp read (between entered now) ∧ ∃ target, step.target = some target ∧
          ¬ target ≤ ((new program).after past).used.temperatures.reading.material) := by
    intro step entered hin
    rw [hin.stepFailed_iff_isUp haccepted hread, hspent step entered hin]
  refine ⟨?_, ?_, ?_⟩
  · intro active
    by_cases hstage : ((new program).after past).stage.isStep = true
    · obtain ⟨step, entered, hin⟩ := exists_inStepSince hstage
      have hstarted : ((new program).after past).stage ≠ .start := by
        intro h
        rw [h] at hstage
        cases hstage
      rw [(stage_in_step_iff hstage).1, hlate, hfails step entered hin]
      constructor
      · rintro (late | failed)
        · exact Or.inl ⟨hstarted, late⟩
        · exact Or.inr ⟨step, entered, hin, failed⟩
      · rintro (⟨_, late⟩ | ⟨other, second, hother, failed⟩)
        · exact Or.inl late
        · exact Or.inr ((hfails step entered hin).mp ((hfails other second hother).mpr failed))
    · rw [failed_outside_iff (by simpa using hstage) active, hlate]
      constructor
      · exact Or.inl
      · rintro (late | ⟨step, entered, hin, _⟩)
        · exact late
        · exact absurd hin.isStep hstage
  · intro step entered hin hkind
    have hruntime := (haccepted.steps step hin.known.1).runtime hkind
    rw [(stage_in_step_iff hin.isStep).2, ← hlate, ← hup step entered hin,
      hin.stepOver_acclimate_iff hkind hruntime, Bool.not_eq_true]
  · intro step entered hin hkind
    rw [(stage_in_step_iff hin.isStep).2, ← hlate, ← hup step entered hin,
      hin.stepOver_cooling_iff hkind, Bool.not_eq_true]

end Read

/-! ## The law for signed words -/

/-- What every tick of a run of an accepted program does about its limits. With the limits and the
times between two readings of the clock read as signed words: it fails if the run has taken longer
than the program allows, or if the time of a heating step is up and the material does not have the
target; it leaves a rest exactly when its time is up, and a cooling step exactly then or when the
material has the target. If all limits are below 2^63 and the readings of the clock since the start
are close together, that is so with the limits and times as they are. A limit from there on is read
as 2^64 seconds less. -/
theorem limits_are_kept_as_signed_words (program : Program) (early events : List ControlEvent)
    (start now : Int) (hcheck : program.check = .ok ())
    (hevents : ∀ event ∈ events, event.isStart = false) :
    let past := early ++ .start start :: events
    KeepsTime signedSeconds secondsSince program start past now ∧
      ((∀ limit ∈ program.limits, limit.toNat < 2 ^ 63) →
        CloseTogether (now :: start :: ticksIn events) →
        KeepsTime (fun limit => limit.toNat) (fun earlier now => now - earlier) program start past
          now) ∧
      ∀ limit : UInt64, 2 ^ 63 ≤ limit.toNat →
        signedSeconds limit = (limit.toNat : Int) - 2 ^ 64 ∧ signedSeconds limit < 0 := by
  intro past
  have haccepted := Program.check_eq_ok_iff.mp hcheck
  have hstart : ((new program).after past).startedAt = start := by
    rw [after_append]
    exact startedAt_after_start _ start hevents
  refine ⟨keepsTime now haccepted hstart (fun _ _ => rfl) rfl fun _ _ _ => rfl, ?_, ?_⟩
  · intro hsmall hclose
    refine keepsTime now haccepted hstart (fun limit hlimit => ?_) ?_ fun step entered hin => ?_
    · rw [signedSeconds_eq, if_pos (hsmall limit hlimit)]
    · exact (hclose.fits (by simp) (by simp)).secondsSince.symm
    · exact (hclose.fits (by simp [hin.entered_mem]) (by simp)).secondsSince.symm
  · intro limit hlarge
    have hbound := limit.toNat_lt
    rw [signedSeconds_eq, if_neg (by omega)]
    exact ⟨rfl, by omega⟩

/-- A rest of five seconds in a run that may take a thousand. -/
def timedRest : Program :=
  ⟨"oak", [⟨"rest", .acclimate, some 40, some 5, .fill (some .off)⟩], some 1000⟩

/-- The rest is entered at second 5 and left at second 10, when its five seconds are over. -/
theorem timed_rest_is_left_in_time :
    let events : List ControlEvent :=
      [.tick 2, .temperatures ⟨30, 20⟩ 2, .power .zero 2, .tick 3, .tick 4, .tick 5, .tick 9]
    timedRest.check = .ok () ∧ (∀ limit ∈ timedRest.limits, limit.toNat < 2 ^ 63) ∧
      CloseTogether (10 :: 1 :: ticksIn events) ∧
      KeepsTime (fun limit => limit.toNat) (fun earlier now => now - earlier) timedRest 1
        (.start 1 :: events) 10 ∧
      (((new timedRest).after (.start 1 :: events)).tick 10).1.stage = .nextStep := by
  intro events
  have hcheck : timedRest.check = .ok () := by decide +kernel
  have hlimits : ∀ limit ∈ timedRest.limits, limit.toNat < 2 ^ 63 := by
    intro limit hlimit
    have hcases : limit = 1000 ∨ limit = 5 := by
      simpa [Program.limits, timedRest] using hlimit
    rcases hcases with rfl | rfl
    · decide
    · decide
  have hclose : CloseTogether (10 :: 1 :: ticksIn events) := by decide
  have hkeeps : KeepsTime (fun limit => limit.toNat) (fun earlier now => now - earlier) timedRest 1
      (.start 1 :: events) 10 :=
    (limits_are_kept_as_signed_words timedRest [] events 1 10 hcheck (by decide)).2.1 hlimits hclose
  have hstay : Stay (new timedRest) (.start 1 :: events.take 5) 5 [.tick 9] := by
    refine ⟨by decide, fun part hpart => ?_⟩
    rcases List.prefix_cons_iff.mp hpart with rfl | ⟨rest, rfl, hrest⟩
    · decide
    · rw [List.prefix_nil.mp hrest]
      decide
  have hin : InStepSince (new timedRest) (.start 1 :: events)
      ⟨"rest", .acclimate, some 40, some 5, .fill (some .off)⟩ 5 :=
    ⟨by decide, _, _, rfl, hstay⟩
  refine ⟨hcheck, hlimits, hclose, hkeeps, (hkeeps.rested _ _ hin rfl).mpr ⟨?_, 5, rfl, by decide⟩⟩
  rintro ⟨limit, hlimit, hlate⟩
  cases hlimit
  exact absurd hlate (by decide)

/-- The same rest in a run that may take 2^63 seconds. -/
def longestRest : Program := { timedRest with maxRuntime := some 0x8000000000000000 }

/-- Two seconds after its start the run has failed for having taken too long, although it waits for
its first reading and has most of its time left. -/
theorem longest_limit_is_exceeded_at_once :
    let past : List ControlEvent := [.start 1, .tick 2]
    longestRest.check = .ok () ∧ ((new longestRest).after past).stage = .waiting ∧
      (((new longestRest).after past).tick 3).1.stage = .failed ∧
      ¬ longestRest.IsLate (fun limit => limit.toNat) (3 - 1) ∧
      ¬ KeepsTime (fun limit => limit.toNat) (fun earlier now => now - earlier) longestRest 1 past
        3 := by
  intro past
  have hstage : ((new longestRest).after past).stage = .waiting := by decide
  have hfailed : (((new longestRest).after past).tick 3).1.stage = .failed := by decide
  have hinTime : ¬ longestRest.IsLate (fun limit => limit.toNat) (3 - 1) := by
    rintro ⟨limit, hlimit, hlate⟩
    cases hlimit
    exact absurd hlate (by decide)
  refine ⟨by decide +kernel, hstage, hfailed, hinTime, fun hkeeps => ?_⟩
  rcases (hkeeps.failed (by rw [hstage]; rfl)).mp hfailed with ⟨_, late⟩ | ⟨step, _, hin, _⟩
  · exact hinTime late
  · have hkind := hin.known.2.1
    rw [hstage] at hkind
    cases step with
    | mk name kind => cases kind <;> cases hkind

end Controller
end DryKiln
