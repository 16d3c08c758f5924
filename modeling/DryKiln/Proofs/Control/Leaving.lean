-- When a step is left. What ends a step is said by a table of its limits and its target, without the
-- controller and its stages. A step that has been entered is left by the first tick for which the
-- table has an entry, to the stage that stands there, and by no other event; and the temperature that
-- the table is asked about is the one that was live when the tick before ended. The times that it is
-- asked about are those between readings of the clock, as far as they fit into a word.
import DryKiln.Proofs.Control.Isolation
import DryKiln.Proofs.Control.Limits
import Mathlib.Data.List.DropRight
import Mathlib.Data.List.Infix

namespace DryKiln

/-! ## The table -/

/-- The stage to which a step is left by a tick, if the tick leaves it. The run has taken so many
seconds and `spent` of them in this step; `material` is the temperature that the material is known to
have. -/
def Step.exit? (step : Step) (program : Program) (taken spent : Int) (material : Float32) :
    Option Stage :=
  let overrun := program.maxRuntime.any fun limit => limit.toNat < taken
  let timeIsUp := step.runtime.any fun limit => limit.toNat ≤ spent
  if overrun then some .failed
  else
    match step.kind with
    | .heating =>
      if step.target.any (· ≤ material) then some .nextStep
      else if timeIsUp then some .failed
      else none
    | .cooling =>
      if timeIsUp || step.target.any (material ≤ ·) then some .nextStep else none
    | .acclimate => if timeIsUp then some .nextStep else none

namespace ControlEvent

/-- A history up to and with its last tick. -/
def upToTick (past : List ControlEvent) : List ControlEvent :=
  past.rdropWhile fun event => !event.isTick

/-- The temperatures that were live when the last tick ended. -/
def knownTemperatures (past : List ControlEvent) : Temperatures :=
  (latest temperatures? (upToTick past)).elim .zero Snapshot.reading

theorem knownTemperatures_tick (past : List ControlEvent) (now : Int) :
    knownTemperatures (past ++ [.tick now]) =
      (latest temperatures? past).elim .zero Snapshot.reading := by
  have hlast : upToTick (past ++ [.tick now]) = past ++ [.tick now] := by
    simp [upToTick, isTick]
  rw [knownTemperatures, hlast, latest_concat]
  rfl

/-- What arrives after a tick is not known before the next one. -/
theorem knownTemperatures_concat (past : List ControlEvent) {event : ControlEvent}
    (htick : event.isTick = false) :
    knownTemperatures (past ++ [event]) = knownTemperatures past := by
  rw [knownTemperatures, knownTemperatures, upToTick, upToTick, List.rdropWhile_concat,
    if_pos (by rw [htick]; rfl)]

end ControlEvent

namespace Controller

open ControlEvent

/-! ## The readings in use -/

/-- A tick that does not end the run brings the live readings into use. -/
theorem used_tick {c : Controller} {now : Int} (h : (c.tick now).1.stage.isTerminal = false) :
    (c.tick now).1.used = c.live := by
  have ht := c.ticked now
  generalize (c.tick now).1 = next, (c.tick now).2 = commands at ht h
  cases ht with
  | ended stage => cases stage.symm.trans h
  | regulated => exact c.regulate_live now
  | _ => rfl

/-- Between the first tick after a start and the end of the run the temperatures in use are those
that were live when the last tick ended. -/
theorem used_after (program : Program) (past : List ControlEvent)
    (hstart : ((new program).after past).stage ≠ .start)
    (hactive : ((new program).after past).stage.isTerminal = false) :
    ((new program).after past).used.temperatures.reading = knownTemperatures past := by
  induction past using List.reverseRecOn with
  | nil => exact absurd rfl hstart
  | append_singleton past event ih =>
    have hkept : event.isTick = false →
        ((new program).after (past ++ [event])).used = ((new program).after past).used →
        ((new program).after (past ++ [event])).stage = ((new program).after past).stage →
        ((new program).after (past ++ [event])).used.temperatures.reading =
          knownTemperatures (past ++ [event]) := by
      intro htick hused hstage
      rw [hused, knownTemperatures_concat past htick]
      exact ih (hstage ▸ hstart) (hstage ▸ hactive)
    rw [after_concat] at hstart hactive hkept ⊢
    cases event with
    | start now => exact absurd rfl hstart
    | temperatures reading received | power reading received => exact hkept rfl rfl rfl
    | shutdown =>
      apply hkept rfl
      · rw [handle, shutdown_eq]
      · rw [handle, shutdown_eq]
    | tick now =>
      rw [handle] at hactive ⊢
      rw [used_tick hactive, live_after, knownTemperatures_tick]
      cases latest temperatures? past <;> rfl

/-! ## One tick in a step -/

namespace InStepSince

variable {program : Program} {past : List ControlEvent} {step : Step} {start entered : Int}

theorem used_eq (h : InStepSince (new program) past step entered) :
    ((new program).after past).used.temperatures.reading = knownTemperatures past := by
  have hstep := h.isStep
  refine used_after program past (fun hstart => ?_) (Stage.not_isTerminal_of_isStep hstep)
  rw [hstart] at hstep
  cases hstep

theorem stepOver_heating_iff (h : InStepSince (new program) past step entered)
    (hkind : step.kind = .heating) (htarget : step.target.isSome = true) (now : Int) :
    ((new program).after past).StepOver now ↔
      step.target.any (· ≤ (knownTemperatures past).material) = true := by
  obtain ⟨target, htarget⟩ := Option.isSome_iff_exists.mp htarget
  simp [StepOver, h.known.2.1, hkind, Stage.ofKind, h.1, h.used_eq, htarget]

theorem stepFailed_iff_any (h : InStepSince (new program) past step entered)
    (htarget : step.kind = .heating → step.target.isSome = true) (now : Int) :
    ((new program).after past).StepFailed now ↔ step.kind = .heating ∧
      step.runtime.any (((new program).after past).elapsed now) = true ∧
        step.target.any (· ≤ (knownTemperatures past).material) = false := by
  rw [h.stepFailed_iff, h.used_eq]
  apply and_congr_right
  intro hkind
  obtain ⟨target, htarget⟩ := Option.isSome_iff_exists.mp (htarget hkind)
  simp [htarget]

theorem stepOver_cooling_iff_any (h : InStepSince (new program) past step entered)
    (hkind : step.kind = .cooling) (now : Int) :
    ((new program).after past).StepOver now ↔
      (step.runtime.any (((new program).after past).elapsed now) ||
        step.target.any ((knownTemperatures past).material ≤ ·)) = true := by
  rw [h.stepOver_cooling_iff hkind, h.used_eq, Bool.or_eq_true]
  cases step.target <;> simp

/-- The limits of the table are those of the controller, if they are small enough. -/
theorem limits_eq (h : InStepSince (new program) past step entered)
    (hsmall : ∀ limit ∈ program.limits, limit.toNat < 2 ^ 63)
    (hstart : ((new program).after past).startedAt = start) (now : Int) :
    (((new program).after past).overdue now =
        program.maxRuntime.any fun limit => limit.toNat < secondsSince start now) ∧
      step.runtime.any (((new program).after past).elapsed now) =
        step.runtime.any fun limit => limit.toNat ≤ secondsSince entered now := by
  have hread : ∀ limit ∈ program.limits, (limit.toNat : Int) = signedSeconds limit := by
    intro limit hlimit
    rw [signedSeconds_eq, if_pos (hsmall limit hlimit)]
  constructor
  · rw [Bool.eq_iff_iff, overdue_iff_isLate hread, hstart, Program.IsLate]
    cases program.maxRuntime <;> simp
  · rw [Bool.eq_iff_iff, h.elapsed_iff_isUp hread, Step.IsUp]
    cases step.runtime <;> simp

/-- A tick in a step does what the table says. -/
theorem stage_tick (h : InStepSince (new program) past step entered) (haccepted : program.Accepted)
    (hsmall : ∀ limit ∈ program.limits, limit.toNat < 2 ^ 63)
    (hstart : ((new program).after past).startedAt = start) (now : Int) :
    (((new program).after past).tick now).1.stage =
      (step.exit? program (secondsSince start now) (secondsSince entered now)
        (knownTemperatures past).material).getD (.ofKind step.kind) := by
  obtain ⟨hmem, hstage, _⟩ := h.known
  obtain ⟨hoverrun, hup⟩ := h.limits_eq hsmall hstart now
  have htarget (hkind : step.kind = .heating) : step.target.isSome = true :=
    (haccepted.steps step hmem).target (by simp [hkind])
  have hheat (hkind : step.kind = .heating) := h.stepOver_heating_iff hkind (htarget hkind) now
  have hcool (hkind : step.kind = .cooling) := h.stepOver_cooling_iff_any hkind now
  have hrest (hkind : step.kind = .acclimate) :=
    h.stepOver_acclimate_iff hkind ((haccepted.steps step hmem).runtime hkind) now
  have hfailed := h.stepFailed_iff_any htarget now
  have ht := tickedInStep now h.isStep
  generalize (((new program).after past).tick now).1 = next,
    (((new program).after past).tick now).2 = commands at ht
  unfold Step.exit?
  rw [← hoverrun, ← hup]
  cases ht with
  | overran late => simp [late]
  | left inTime complete =>
    cases hkind : step.kind with
    | heating => simp [inTime, (hheat hkind).mp complete]
    | cooling =>
      rw [hcool hkind] at complete
      simp [inTime, complete]
    | acclimate => simp [inTime, (hrest hkind).mp complete]
  | gaveUp inTime late =>
    obtain ⟨hkind, htime, hcold⟩ := hfailed.mp late
    simp [inTime, hkind, htime, hcold]
  | regulated inTime goesOn holds =>
    rw [refreshed, regulate_stage, hstage]
    cases hkind : step.kind with
    | heating =>
      rw [hheat hkind] at goesOn
      have htime : step.runtime.any (((new program).after past).elapsed now) = false := by
        simpa [hfailed, hkind, goesOn] using holds
      simp [inTime, goesOn, htime]
    | cooling =>
      rw [hcool hkind] at goesOn
      simp [inTime, goesOn]
    | acclimate => simp [inTime, mt (hrest hkind).mpr goesOn]

end InStepSince

/-! ## The whole step -/

/-- The table never leads into a step. -/
theorem isStep_of_exit? {step : Step} {program : Program} {taken spent : Int}
    {material : Float32} {stage : Stage}
    (h : step.exit? program taken spent material = some stage) : stage.isStep = false := by
  unfold Step.exit? at h
  grind [Stage.isStep]

/-- The entry of the table for a tick after the events `part` of a step, with the times as signed
words. -/
def exitAfter (program : Program) (step : Step) (start : Int) (past : List ControlEvent)
    (entered : Int) (part : List ControlEvent) (now : Int) : Option Stage :=
  step.exit? program (secondsSince start now) (secondsSince entered now)
    (knownTemperatures (past ++ .tick entered :: part)).material

/-- No tick among these events of a step has an entry in the table. -/
def Lasts (program : Program) (step : Step) (start : Int) (past : List ControlEvent) (entered : Int)
    (part : List ControlEvent) : Prop :=
  ∀ earlier second, earlier ++ [.tick second] <+: part →
    exitAfter program step start past entered earlier second = none

/-- A step that has been entered is left by a tick: the controller is in the step up to that tick,
and in another stage after it. -/
structure Leaves (c : Controller) (past : List ControlEvent) (entered : Int)
    (part : List ControlEvent) (now : Int) (stage : Stage) : Prop where
  stays : Stay c past entered part
  stage_eq : (c.after (past ++ .tick entered :: (part ++ [.tick now]))).stage = stage
  outside : stage.isStep = false

section Law

variable {program : Program} {past part : List ControlEvent} {step : Step} {start entered : Int}

theorem Enters.inStepSince (h : Enters (new program) past entered step)
    (hstay : Stay (new program) past entered part) :
    InStepSince (new program) (past ++ .tick entered :: part) step entered :=
  ⟨hstay.sameStep.step.trans h.current, past, part, rfl, hstay⟩

theorem Enters.stay (h : Enters (new program) past entered step) :
    Stay (new program) past entered [] := by
  have hinside := h.inside
  rw [after_concat] at hinside
  obtain ⟨_, _, hahead, _⟩ := entered_of_isStep h.outside hinside
  refine ⟨hahead, fun part hpart => ?_⟩
  rw [List.prefix_nil.mp hpart]
  exact h.inside

/-- The second of the start is still the same during the step. -/
theorem startedAt_within (hstart : ((new program).after past).startedAt = start)
    (hpart : ∀ event ∈ part, event.isStart = false) :
    ((new program).after (past ++ .tick entered :: part)).startedAt = start := by
  rw [after_append]
  refine after_invariant (P := fun d => d.startedAt = start)
    (fun d _ hs hd => (d.handle_startedAt hs).trans hd) _ _ ?_ hstart
  exact List.forall_mem_cons.mpr ⟨rfl, hpart⟩

/-- As long as the step lasts, the next tick does what the table says. -/
theorem Enters.stage_after (h : Enters (new program) past entered step)
    (haccepted : program.Accepted) (hsmall : ∀ limit ∈ program.limits, limit.toNat < 2 ^ 63)
    (hstart : ((new program).after past).startedAt = start)
    (hpart : ∀ event ∈ part, event.isStart = false) (hstay : Stay (new program) past entered part)
    (now : Int) : ((new program).after (past ++ .tick entered :: (part ++ [.tick now]))).stage =
      (exitAfter program step start past entered part now).getD (.ofKind step.kind) := by
  rw [← List.cons_append, ← List.append_assoc, after_concat, handle]
  exact (h.inStepSince hstay).stage_tick haccepted hsmall (startedAt_within hstart hpart) now

/-- The controller is in the step exactly as long as no tick has an entry in the table. -/
theorem Enters.stay_iff_lasts (h : Enters (new program) past entered step)
    (haccepted : program.Accepted) (hsmall : ∀ limit ∈ program.limits, limit.toNat < 2 ^ 63)
    (hstart : ((new program).after past).startedAt = start)
    (hpart : ∀ event ∈ part, event.isStart = false) :
    Stay (new program) past entered part ↔ Lasts program step start past entered part := by
  constructor
  · intro hstay earlier second hcut
    have hearlier : Stay (new program) past entered earlier :=
      ⟨hstay.ahead, fun first hfirst =>
        hstay.stays first (hfirst.trans ((List.prefix_append _ _).trans hcut))⟩
    have hinside := hstay.stays _ hcut
    rw [h.stage_after haccepted hsmall hstart
      (fun event he => hpart event (hcut.subset (by simp [he]))) hearlier] at hinside
    cases hexit : exitAfter program step start past entered earlier second with
    | none => rfl
    | some stage =>
      rw [hexit, Option.getD_some, isStep_of_exit? hexit] at hinside
      cases hinside
  · intro hlasts
    induction part using List.reverseRecOn with
    | nil => exact h.stay
    | append_singleton part event ih =>
      obtain ⟨hbefore, hevent⟩ := List.forall_mem_append.mp hpart
      have hstay := ih hbefore fun earlier second hcut =>
        hlasts earlier second (hcut.trans (List.prefix_append _ _))
      refine ⟨hstay.ahead, fun first hfirst => ?_⟩
      rcases List.prefix_concat_iff.mp hfirst with rfl | hfirst
      · by_cases htick : event.isTick = true
        · obtain ⟨now, rfl⟩ : ∃ now, event = .tick now := by
            cases event <;> first | exact ⟨_, rfl⟩ | cases htick
          rw [h.stage_after haccepted hsmall hstart hbefore hstay, hlasts part now List.prefix_rfl]
          exact Stage.isStep_ofKind step.kind
        · rw [← List.cons_append, ← List.append_assoc, after_concat,
            stage_handle _ (hevent event (by simp)) (by simpa using htick)]
          exact hstay.stays part List.prefix_rfl
      · exact hstay.stays first hfirst

end Law

/-- A heating step with a target and a limit of its own. -/
def timedHeat : Program :=
  ⟨"oak", [⟨"up", .heating, some 60, some 100, .fill (some (.constant 30))⟩], some 1000⟩

end Controller
end DryKiln
