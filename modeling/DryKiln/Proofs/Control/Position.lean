-- The laws of the position. From the first tick after a start on, the stage of a controller fits
-- the step at which it stands, and the steps are taken one by one and in the order of the program.
import DryKiln.Proofs.Control.History

namespace DryKiln

/-- A regulator that was made for a regulation and has been updated since, or not. -/
inductive Regulator.MadeFor (regulation : Regulation) : Regulator → Prop where
  | fresh : MadeFor regulation (.fresh regulation)
  | update {regulator : Regulator} (setpoint oven material : Float32) (previous : UInt8)
      (now : Int) : MadeFor regulation regulator →
      MadeFor regulation (regulator.update setpoint oven material previous now).1

namespace Controller

/-! ## The invariant -/

/-- The stage fits the position. -/
structure Placed (c : Controller) : Prop where
  started : c.stage ≠ .start
  before : c.stage = .waiting ∨ c.stage = .preHeat → c.position = none
  between : c.stage = .nextStep ∨ c.stage = .failed →
    ∀ i, c.position = some i → i < c.program.steps.length
  inside : c.stage.isStep = true → ∃ i step table, c.position = some i ∧
    c.program.steps[i]? = some step ∧ c.stage = .ofKind step.kind ∧ c.regulators = some table ∧
    ∀ channel, (table.get channel).MadeFor (step.phase channel)
  past : c.stage = .idle → c.position = some c.program.steps.length

theorem placed_before {c : Controller} (hs : c.stage = .waiting ∨ c.stage = .preHeat)
    (hp : c.position = none) : Placed c := by
  rcases hs with hs | hs <;> exact ⟨by simp [hs], fun _ => hp, by simp [hs],
    by simp [hs, Stage.isStep], by simp [hs]⟩

theorem placed_between {c : Controller} (hs : c.stage = .nextStep ∨ c.stage = .failed)
    (hp : ∀ i, c.position = some i → i < c.program.steps.length) : Placed c := by
  rcases hs with hs | hs <;> exact ⟨by simp [hs], by simp [hs], fun _ => hp,
    by simp [hs, Stage.isStep], by simp [hs]⟩

theorem placed_inside {c : Controller} {i : Nat} {step : Step} {table : PerChannel Regulator}
    (hp : c.position = some i) (hi : c.program.steps[i]? = some step)
    (hs : c.stage = .ofKind step.kind) (hr : c.regulators = some table)
    (hm : ∀ channel, (table.get channel).MadeFor (step.phase channel)) : Placed c := by
  have hstage : c.stage.isStep = true := by simp [hs]
  refine ⟨?_, ?_, ?_, fun _ => ⟨i, step, table, hp, hi, hs, hr, hm⟩, ?_⟩
  · intro h
    simp [h, Stage.isStep] at hstage
  · rintro (h | h) <;> simp [h, Stage.isStep] at hstage
  · rintro (h | h) <;> simp [h, Stage.isStep] at hstage
  · intro h
    simp [h, Stage.isStep] at hstage

theorem placed_past {c : Controller} (hs : c.stage = .idle)
    (hp : c.position = some c.program.steps.length) : Placed c :=
  ⟨by simp [hs], by simp [hs], by simp [hs], by simp [hs, Stage.isStep], fun _ => hp⟩

/-- Nothing else matters to the invariant. -/
theorem Placed.congr {c d : Controller} (h : Placed c) (hp : d.program = c.program)
    (hs : d.stage = c.stage) (hi : d.position = c.position) (hr : d.regulators = c.regulators) :
    Placed d := by
  obtain ⟨h1, h2, h3, h4, h5⟩ := h
  refine ⟨?_, ?_, ?_, ?_, ?_⟩
  · rw [hs]; exact h1
  · rw [hs, hi]; exact h2
  · rw [hs, hi, hp]; exact h3
  · rw [hs, hi, hp, hr]; exact h4
  · rw [hs, hi, hp]; exact h5

/-- As long as the program is not over, the current step is one of its steps. -/
theorem Placed.position_lt {c : Controller} (h : Placed c) (hs : c.stage ≠ .idle) (i : Nat)
    (hi : c.position = some i) : i < c.program.steps.length := by
  cases stage : c.stage with
  | start => exact absurd stage h.started
  | waiting => simp [h.before (Or.inl stage)] at hi
  | preHeat => simp [h.before (Or.inr stage)] at hi
  | nextStep => exact h.between (Or.inl stage) i hi
  | failed => exact h.between (Or.inr stage) i hi
  | idle => exact absurd stage hs
  | heatUp | acclimate | coolDown =>
    obtain ⟨j, step, _, hj, hget, _⟩ := h.inside (by simp [stage, Stage.isStep])
    obtain rfl : j = i := Option.some.inj (hj.symm.trans hi)
    exact (List.getElem?_eq_some_iff.mp hget).1

/-- As long as the program is not over, no more steps have been begun than there are. -/
theorem Placed.upcoming_le {c : Controller} (h : Placed c) (hs : c.stage ≠ .idle) :
    c.upcoming ≤ c.program.steps.length := by
  unfold upcoming
  split
  · exact Nat.zero_le _
  · rename_i i hi
    exact h.position_lt hs i hi

/-- A regulation keeps the regulators of the step. -/
theorem Placed.regulate {c : Controller} (h : Placed c) (now : Int) (hs : c.stage.isStep = true) :
    Placed (c.regulate now).1 := by
  obtain ⟨i, step, table, hi, hstep, hstage, htable, hmade⟩ := h.inside hs
  rcases c.regulate_cases now with heq | ⟨step', table', ⟨_, hstep', htable'⟩, heq⟩
  · rw [heq]; exact h
  · obtain rfl : table = table' := Option.some.inj (htable.symm.trans htable')
    rw [heq]
    refine placed_inside hi hstep hstage rfl fun channel => ?_
    rw [PerChannel.get_map, updates, PerChannel.get_ofFn]
    exact .update _ _ _ _ _ (hmade channel)

theorem placed_tick {c : Controller} (now : Int) (h : c.stage = .start ∨ Placed c) :
    Placed (c.tick now).1 := by
  -- only the first tick comes from the stage at the start, where nothing is known yet
  have hold : c.stage ≠ .start → Placed c := fun hne => h.resolve_left hne
  have ht := c.ticked now
  generalize (c.tick now).1 = next, (c.tick now).2 = commands at ht
  cases ht with
  | ended stage => exact hold (fun hs => by simp [hs, Stage.isTerminal] at stage)
  | begun stage => exact placed_before (Or.inl rfl) rfl
  | overran started active late =>
    refine placed_between (Or.inr rfl) fun i hi => (hold started).position_lt ?_ i hi
    intro hs
    simp [hs, Stage.isTerminal] at active
  | waited stage => exact (hold (by simp [stage])).congr rfl rfl rfl rfl
  | warmed stage =>
    exact placed_before (Or.inr rfl) ((hold (by simp [stage])).before (Or.inl stage))
  | lagged stage => exact (hold (by simp [stage])).congr rfl rfl rfl rfl
  | heated stage => exact (hold (by simp [stage])).congr rfl rfl rfl rfl
  | caughtUp stage =>
    have hnone := (hold (by simp [stage])).before (Or.inr stage)
    refine placed_between (Or.inl rfl) fun i hi => ?_
    cases hnone.symm.trans hi
  | entered step stage inTime next =>
    exact placed_inside rfl next rfl rfl fun channel => by
      rw [PerChannel.get_ofFn]
      exact .fresh
  | finished => exact placed_past rfl rfl
  | left stage =>
    have hplaced := hold (fun hs => by simp [hs, Stage.isStep] at stage)
    refine placed_between (Or.inl rfl) fun i hi => hplaced.position_lt ?_ i hi
    intro hs
    simp [hs, Stage.isStep] at stage
  | gaveUp inTime late =>
    have hplaced := hold (by simp [late.1])
    exact placed_between (Or.inr rfl) fun i hi => hplaced.position_lt (by simp [late.1]) i hi
  | regulated stage =>
    have hplaced := hold (fun hs => by simp [hs, Stage.isStep] at stage)
    exact (hplaced.regulate now stage).congr rfl rfl rfl rfl

theorem placed_handle {c : Controller} {event : ControlEvent} (hs : event.isStart = false)
    (h : Placed c) : Placed (c.handle event).1 := by
  cases event with
  | start now => simp [ControlEvent.isStart] at hs
  | tick now => exact placed_tick now (Or.inr h)
  | temperatures reading received => exact h.congr rfl rfl rfl rfl
  | power reading received => exact h.congr rfl rfl rfl rfl
  | shutdown =>
    simp only [handle, shutdown_eq]
    exact h.congr rfl rfl rfl rfl

/-- The events between a start and the first tick after it leave the controller at its start. -/
theorem start_after {c : Controller} {events : List ControlEvent}
    (hquiet : ∀ event ∈ events, event.isStart = false ∧ event.isTick = false)
    (hs : c.stage = .start) : (c.after events).stage = .start := by
  refine after_invariant (P := fun d => d.stage = .start)
    (A := fun event => event.isStart = false ∧ event.isTick = false) ?_ c events hquiet hs
  rintro d event ⟨hstart, htick⟩ hd
  cases event with
  | start now => simp [ControlEvent.isStart] at hstart
  | tick now => simp [ControlEvent.isTick] at htick
  | temperatures reading received => exact hd
  | power reading received => exact hd
  | shutdown =>
    simp only [handle, shutdown_eq]
    exact hd

theorem placed_after {c : Controller} {events : List ControlEvent}
    (hevents : ∀ event ∈ events, event.isStart = false) (h : Placed c) : Placed (c.after events) :=
  after_invariant (fun _ _ hs hc => placed_handle hs hc) c events hevents h

/-! ## The steps that are taken -/

/-- The number of the step that an event enters, if it enters one. -/
def entry (c : Controller) (event : ControlEvent) : List Nat :=
  let next := (c.handle event).1
  if next.stage.isStep = true ∧ next.stage ≠ c.stage then next.position.toList else []

/-- The second of an event that looks for the next step, if it does. -/
def lookAhead (c : Controller) (event : ControlEvent) : List Int :=
  match event with
  | .tick now => if c.stage = .nextStep ∧ c.overdue now = false then [now] else []
  | _ => []

/-- The position after an event, if it is another one than before. -/
def move (c : Controller) (event : ControlEvent) : List (Option Nat) :=
  if (c.handle event).1.position = c.position then [] else [(c.handle event).1.position]

def entries (c : Controller) : List ControlEvent → List Nat :=
  observe fun past event => (c.after past).entry event

def lookAheads (c : Controller) : List ControlEvent → List Int :=
  observe fun past event => (c.after past).lookAhead event

def moves (c : Controller) : List ControlEvent → List (Option Nat) :=
  observe fun past event => (c.after past).move event

/-- What an event does to the position, and what is noted of it: nothing, or the next step. -/
inductive Moved (c : Controller) (event : ControlEvent) : Prop where
  | stays (position : (c.handle event).1.position = c.position) (entry : c.entry event = [])
      (lookAhead : c.lookAhead event = []) : Moved c event
  | advances (position : (c.handle event).1.position = some c.upcoming)
      (fits : c.upcoming ≤ c.program.steps.length)
      (entry : c.entry event = if c.upcoming < c.program.steps.length then [c.upcoming] else [])
      (lookAhead : (c.lookAhead event).length = 1) : Moved c event

theorem entry_of_not_isStep {c : Controller} {event : ControlEvent}
    (h : (c.handle event).1.stage.isStep = false) : c.entry event = [] := by
  simp [entry, h]

theorem entry_of_same_stage {c : Controller} {event : ControlEvent}
    (h : (c.handle event).1.stage = c.stage) : c.entry event = [] := by
  simp [entry, h]

theorem lookAhead_of_ne {c : Controller} {event : ControlEvent} (h : c.stage ≠ .nextStep) :
    c.lookAhead event = [] := by
  cases event <;> simp [lookAhead, h]

theorem lookAhead_of_late {c : Controller} {now : Int} (h : c.overdue now = true) :
    c.lookAhead (.tick now) = [] := by
  simp [lookAhead, h]

theorem lookAhead_of_inTime {c : Controller} {now : Int} (hs : c.stage = .nextStep)
    (h : c.overdue now = false) : c.lookAhead (.tick now) = [now] := by
  simp [lookAhead, hs, h]

theorem moved_tick {c : Controller} (now : Int) (h : Placed c) : Moved c (.tick now) := by
  have ht := c.ticked now
  generalize hnext : (c.tick now).1 = next, (c.tick now).2 = commands at ht
  have hhandle : (c.handle (.tick now)).1 = next := hnext
  have hsame : next.stage = c.stage → c.entry (.tick now) = [] := fun hs =>
    entry_of_same_stage (by rw [hhandle, hs])
  have hother : next.stage.isStep = false → c.entry (.tick now) = [] := fun hs =>
    entry_of_not_isStep (by rw [hhandle, hs])
  cases ht with
  | ended stage =>
    refine .stays (by rw [hhandle]) (hsame rfl) (lookAhead_of_ne ?_)
    intro hs
    simp [hs, Stage.isTerminal] at stage
  | begun stage => exact absurd stage h.started
  | overran started active late =>
    exact .stays (by rw [hhandle]; rfl) (hother rfl) (lookAhead_of_late late)
  | waited stage =>
    exact .stays (by rw [hhandle]; rfl) (hsame rfl) (lookAhead_of_ne (by simp [stage]))
  | warmed stage =>
    exact .stays (by rw [hhandle]; rfl) (hother rfl) (lookAhead_of_ne (by simp [stage]))
  | lagged stage =>
    exact .stays (by rw [hhandle]; rfl) (hsame rfl) (lookAhead_of_ne (by simp [stage]))
  | heated stage =>
    exact .stays (by rw [hhandle]; rfl) (hsame rfl) (lookAhead_of_ne (by simp [stage]))
  | caughtUp stage =>
    exact .stays (by rw [hhandle]; rfl) (hother rfl) (lookAhead_of_ne (by simp [stage]))
  | entered step stage inTime next =>
    have hlt := (List.getElem?_eq_some_iff.mp next).1
    refine .advances (by rw [hhandle]) (Nat.le_of_lt hlt) ?_
      (by rw [lookAhead_of_inTime stage inTime]; rfl)
    have hne : Stage.ofKind step.kind ≠ c.stage := by
      intro hs
      have := Stage.isStep_ofKind step.kind
      simp [hs, stage, Stage.isStep] at this
    rw [if_pos hlt]
    simp only [entry, hhandle]
    rw [if_pos ⟨Stage.isStep_ofKind step.kind, hne⟩]
    rfl
  | finished stage inTime past =>
    -- no step is skipped: the one past the last is the one after the last
    have heq := Nat.le_antisymm (h.upcoming_le (by simp [stage])) past
    refine .advances (by rw [hhandle, heq]) (Nat.le_of_eq heq) ?_
      (by rw [lookAhead_of_inTime stage inTime]; rfl)
    rw [if_neg (by omega)]
    exact hother rfl
  | left stage =>
    refine .stays (by rw [hhandle]; rfl) (hother rfl) (lookAhead_of_ne ?_)
    intro hs
    simp [hs, Stage.isStep] at stage
  | gaveUp inTime late =>
    exact .stays (by rw [hhandle]; rfl) (hother rfl) (lookAhead_of_ne (by simp [late.1]))
  | regulated stage =>
    refine .stays (by rw [hhandle]; simp [refreshed]) (hsame (by simp [refreshed]))
      (lookAhead_of_ne ?_)
    intro hs
    simp [hs, Stage.isStep] at stage

theorem moved {c : Controller} {event : ControlEvent} (hs : event.isStart = false) (h : Placed c) :
    Moved c event := by
  cases event with
  | start now => simp [ControlEvent.isStart] at hs
  | tick now => exact moved_tick now h
  | temperatures reading received => exact .stays rfl (entry_of_same_stage rfl) rfl
  | power reading received => exact .stays rfl (entry_of_same_stage rfl) rfl
  | shutdown =>
    have heq : (c.handle .shutdown).1 = { c with stopped := true } := by simp [handle, shutdown_eq]
    exact .stays (by rw [heq]) (entry_of_same_stage (by rw [heq])) rfl

theorem upcoming_of_position {c d : Controller} (h : d.position = some c.upcoming) :
    d.upcoming = c.upcoming + 1 := by
  simp [upcoming, h]

theorem upcoming_congr {c d : Controller} (h : d.position = c.position) :
    d.upcoming = c.upcoming := by
  simp [upcoming, h]

theorem position_ne_upcoming (c : Controller) : some c.upcoming ≠ c.position := by
  cases h : c.position <;> simp [upcoming, h]

/-- Each of the three notes of a history, from the steps begun before it and after it. -/
theorem notes_after {c : Controller} {events : List ControlEvent}
    (hevents : ∀ event ∈ events, event.isStart = false) (h : Placed c) :
    (List.range c.upcoming).map some ++ c.moves events =
        (List.range (c.after events).upcoming).map some ∧
      List.range (min c.upcoming c.program.steps.length) ++ c.entries events =
        List.range (min (c.after events).upcoming c.program.steps.length) ∧
      c.upcoming + (c.lookAheads events).length = (c.after events).upcoming := by
  induction events using List.reverseRecOn with
  | nil => simp [moves, entries, lookAheads]
  | append_singleton events event ih =>
    have hfirst : ∀ e ∈ events, e.isStart = false := fun e he => hevents e (by simp [he])
    obtain ⟨hmoves, hentries, hlooks⟩ := ih hfirst
    have hplaced := placed_after hfirst h
    have hprogram : (c.after events).program = c.program := c.after_program events
    simp only [moves, entries, lookAheads, observe_concat, after_concat, ← List.append_assoc,
      List.length_append, ← Nat.add_assoc] at hmoves hentries hlooks ⊢
    rw [hmoves, hentries, hlooks]
    -- an event that moves adds the next number to all three notes, and any other adds nothing
    cases moved (hevents event (by simp)) hplaced with
    | stays position entry lookAhead =>
      rw [upcoming_congr position, entry, lookAhead, move, if_pos position]
      simp
    | advances position fits entry lookAhead =>
      rw [hprogram] at fits entry
      have hne : ((c.after events).handle event).1.position ≠ (c.after events).position := by
        rw [position]
        exact (c.after events).position_ne_upcoming
      rw [upcoming_of_position position, lookAhead, move, if_neg hne, position, entry]
      refine ⟨by simp [List.range_succ], ?_, rfl⟩
      split
      · rename_i hlt
        rw [Nat.min_eq_left (Nat.le_of_lt hlt), Nat.min_eq_left hlt, List.range_succ]
      · rw [Nat.min_eq_right (by omega), Nat.min_eq_right (by omega), List.append_nil]

/-- The first tick after a start puts the controller before the first step. -/
theorem before_first_step (c : Controller) {quiet : List ControlEvent} (t₀ t₁ : Int)
    (hquiet : ∀ event ∈ quiet, event.isStart = false ∧ event.isTick = false) :
    (c.after (.start t₀ :: quiet ++ [.tick t₁])).stage = .waiting ∧
      (c.after (.start t₀ :: quiet ++ [.tick t₁])).position = none := by
  have hstart : (c.after (.start t₀ :: quiet)).stage = .start :=
    start_after (c := (c.start t₀).1) hquiet rfl
  rw [after_concat, handle, tick_of_start t₁ hstart]
  exact ⟨rfl, rfl⟩

/-! ## The laws -/

/-- Whatever happened before, from the first tick after a start on the stage fits the position. The
positions are none, 0, 1, 2 and so on, one after the other; each step is entered once and in the
order of the program, and the program is over when the next step has been looked for once more than
there are steps. A step is never carried out without its settings and its regulators. -/
theorem steps_are_taken_one_by_one (program : Program) (before quiet events : List ControlEvent)
    (t₀ t₁ : Int) (hquiet : ∀ event ∈ quiet, event.isStart = false ∧ event.isTick = false)
    (hevents : ∀ event ∈ events, event.isStart = false) :
    let begun := (new program).after (before ++ (.start t₀ :: quiet ++ [.tick t₁]))
    let c := begun.after events
    c.program = program ∧ Placed c ∧ begun.stage = .waiting ∧ begun.position = none ∧
      begun.moves events = (List.range c.upcoming).map some ∧
      begun.entries events = List.range (min c.upcoming program.steps.length) ∧
      (begun.lookAheads events).length = c.upcoming ∧
      (c.stage = .idle → begun.entries events = List.range program.steps.length ∧
        (begun.lookAheads events).length = program.steps.length + 1) ∧
      (c.stage.isStep = true → ∃ step table, c.step? = some step ∧ c.regulators = some table) := by
  intro begun c
  have hprogram : begun.program = program := after_program _ _
  obtain ⟨hwaiting, hnone⟩ : begun.stage = .waiting ∧ begun.position = none := by
    have h := before_first_step ((new program).after before) t₀ t₁ hquiet
    rwa [← after_append] at h
  have hbegun : Placed begun := placed_before (Or.inl hwaiting) hnone
  have hplaced : Placed c := placed_after hevents hbegun
  have hc : c.program = program := (after_program _ _).trans hprogram
  obtain ⟨hmoves, hentries, hlooks⟩ := notes_after hevents hbegun
  have hzero : begun.upcoming = 0 := by simp [upcoming, hnone]
  simp only [hzero, hprogram, List.range_zero, List.map_nil, List.nil_append, Nat.zero_min,
    Nat.zero_add] at hmoves hentries hlooks
  refine ⟨hc, hplaced, hwaiting, hnone, hmoves, hentries, hlooks, ?_, ?_⟩
  · intro hidle
    have hend : c.upcoming = program.steps.length + 1 := by
      simp [upcoming, hplaced.past hidle, hc]
    rw [hentries, hlooks]
    exact ⟨by rw [hend, Nat.min_eq_right (Nat.le_succ _)], hend⟩
  · intro hstage
    obtain ⟨i, step, table, hi, hstep, _, htable, _⟩ := hplaced.inside hstage
    exact ⟨step, table, by simp [step?, hi, hstep], htable⟩

/-- A program of two rests without a heater. -/
def twoRests : Program where
  name := "oak"
  steps := [⟨"rest", .acclimate, some 40, some 5, .fill none⟩,
    ⟨"cool", .cooling, some 20, some 9, .fill (some (.constant 30))⟩]
  maxRuntime := some 1000

/-- A run that is given up in a step and started again: the second time it comes to its end. -/
theorem two_rests_are_taken_one_by_one :
    let readings : List ControlEvent := [.temperatures ⟨21, 20⟩ 7, .power .zero 7]
    let before : List ControlEvent :=
      [.start 1, .tick 2] ++ readings ++ [.tick 3, .tick 4, .tick 5, .shutdown]
    let events : List ControlEvent := [.tick 12, .tick 13, .tick 14, .tick 20, .tick 21, .tick 22,
      .temperatures ⟨30, 19⟩ 23, .tick 24, .tick 25, .tick 26]
    let begun := (new twoRests).after (before ++ (.start 6 :: readings ++ [.tick 8]))
    (begun.after events).stage = .idle ∧ begun.entries events = [0, 1] ∧
      (begun.lookAheads events).length = 3 := by
  intro readings before events begun
  have hidle : (begun.after events).stage = .idle := by decide
  obtain ⟨_, _, _, _, _, _, _, hend, _⟩ :=
    steps_are_taken_one_by_one twoRests before readings events 6 8 (by decide) (by decide)
  exact ⟨hidle, hend hidle⟩

end Controller
end DryKiln
