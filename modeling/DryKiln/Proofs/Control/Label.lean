-- The name that is shown as the current step. It follows the position: first that of no step, then
-- those of the steps in their order, and at last that of a program that has been completed.
import DryKiln.Proofs.Control.Stay

namespace DryKiln
namespace Controller

/-! ## Onwards -/

/-- A controller that has been started: it has had no tick yet, or its stage fits its position. -/
def Begun (c : Controller) : Prop := c.stage = .start ∧ c.position = none ∨ Placed c

/-- A controller has stayed where it was, or has gone on to the next step, and these are the steps
that it has entered. -/
inductive Onward (c d : Controller) (entered : List Nat) : Prop where
  | stays (same : d.upcoming = c.upcoming) (none : entered = [])
  | moves (next : d.upcoming = c.upcoming + 1) (fits : c.upcoming ≤ c.program.steps.length)
      (one : entered = if c.upcoming < c.program.steps.length then [c.upcoming] else [])

/-- Whatever a controller has begun with, it goes on by one step at most. -/
theorem onward_handle {c : Controller} {event : ControlEvent} (hs : event.isStart = false)
    (h : Begun c) : Begun (c.handle event).1 ∧ Onward c (c.handle event).1 (c.entry event) := by
  rcases h with ⟨hstart, hnone⟩ | hplaced
  · -- a tick gives the stage that has no position either, and nothing else changes the two
    by_cases htick : event.isTick = true
    · cases event with
      | tick now =>
        have hnext : (c.handle (.tick now)).1 =
            { c.changedTo .waiting now with position := none } :=
          congrArg Prod.fst (tick_of_start now hstart)
        refine ⟨.inr ?_, .stays ?_ (entry_of_not_isStep ?_)⟩
        · rw [hnext]
          exact placed_before (.inl rfl) rfl
        · rw [hnext]
          simp [upcoming, hnone]
        · rw [hnext]
          rfl
      | _ => cases htick
    · have hsame : (c.handle event).1.stage = c.stage ∧
          (c.handle event).1.position = c.position := by
        cases event with
        | start now => cases hs
        | tick now => exact absurd rfl htick
        | temperatures reading received => exact ⟨rfl, rfl⟩
        | power reading received => exact ⟨rfl, rfl⟩
        | shutdown =>
          rw [handle, shutdown_eq]
          exact ⟨rfl, rfl⟩
      refine ⟨.inl ⟨hsame.1.trans hstart, hsame.2.trans hnone⟩, .stays (upcoming_congr hsame.2) ?_⟩
      exact entry_of_same_stage hsame.1
  · refine ⟨.inr (placed_handle hs hplaced), ?_⟩
    cases moved hs hplaced with
    | stays position entry => exact .stays (upcoming_congr position) entry
    | advances position fits entry => exact .moves (upcoming_of_position position) fits entry

theorem entries_append (c : Controller) (first second : List ControlEvent) :
    c.entries (first ++ second) = c.entries first ++ (c.after first).entries second := by
  induction second using List.reverseRecOn with
  | nil => simp [entries]
  | append_singleton second event ih =>
    simp only [entries, ← List.append_assoc, observe_concat, after_append] at ih ⊢
    rw [ih]

theorem entries_singleton (c : Controller) (event : ControlEvent) :
    c.entries [event] = c.entry event := by
  simp [entries, observe, observeFrom]

/-- Turning the actuators off behind an event changes nothing of this. -/
theorem onward_shutdown {c : Controller} {event : ControlEvent} (hs : event.isStart = false)
    (h : Begun c) :
    Begun (c.after [event, .shutdown]) ∧
      Onward c (c.after [event, .shutdown]) (c.entries [event, .shutdown]) := by
  obtain ⟨hbegun, honward⟩ := onward_handle hs h
  have hoff : (c.after [event, .shutdown]) = ((c.handle event).1.handle .shutdown).1 := rfl
  have hsame : ((c.handle event).1.handle .shutdown).1 =
      { (c.handle event).1 with stopped := true } :=
    congrArg Prod.fst (shutdown_eq _)
  have hentries : c.entries [event, .shutdown] = c.entry event := by
    have hnone : (c.handle event).1.entry .shutdown = [] :=
      entry_of_same_stage (by rw [hsame])
    rw [show [event, .shutdown] = [event] ++ [.shutdown] from rfl, entries_append,
      entries_singleton, entries_singleton]
    exact (congrArg (c.entry event ++ ·) hnone).trans (List.append_nil _)
  have hupcoming : (c.after [event, .shutdown]).upcoming = (c.handle event).1.upcoming := by
    rw [hoff]
    exact upcoming_congr (by rw [hsame])
  have hrest : Begun ((c.handle event).1.handle .shutdown).1 :=
    (onward_handle (show ControlEvent.isStart .shutdown = false from rfl) hbegun).1
  refine ⟨hrest, ?_⟩
  rw [hentries]
  cases honward with
  | stays same none => exact .stays (hupcoming.trans same) none
  | moves next fits one => exact .moves (hupcoming.trans next) fits one

/-! ## Names -/

end Controller

/-- What has been shown when so many steps have been begun: one more than there are, if the program
has been completed. -/
def Program.namesUpTo (program : Program) (begun : Nat) : List String :=
  initializingLabel :: (program.steps.take begun).map Step.name ++
    if program.steps.length < begun then [completedLabel] else []

/-- What is shown at a step, or past the last one. -/
def Program.nameAt (program : Program) (i : Nat) : String :=
  (program.steps[i]?).elim completedLabel Step.name

theorem Program.namesUpTo_succ {program : Program} {begun : Nat}
    (h : begun ≤ program.steps.length) :
    program.namesUpTo (begun + 1) = program.namesUpTo begun ++ [program.nameAt begun] := by
  rcases Nat.lt_or_eq_of_le h with hlt | rfl
  · have hnot : ¬ program.steps.length < begun := by omega
    have hnot' : ¬ program.steps.length < begun + 1 := by omega
    have hat : program.steps[begun]? = some program.steps[begun] := List.getElem?_eq_getElem hlt
    rw [namesUpTo, namesUpTo, nameAt, if_neg hnot, if_neg hnot', List.take_add_one, hat]
    simp only [List.map_append, List.append_nil, List.cons_append, Option.elim_some]
    rfl
  · have htake : program.steps.take (program.steps.length + 1) = program.steps :=
      List.take_of_length_le (Nat.le_succ _)
    rw [namesUpTo, namesUpTo, nameAt, htake, List.take_length, if_pos (Nat.lt_succ_self _),
      if_neg (Nat.lt_irrefl _), List.getElem?_eq_none (Nat.le_refl _), List.append_nil]
    rfl

namespace Controller

theorem stepLabel_of_upcoming {c : Controller} {i : Nat} (h : c.upcoming = i + 1) :
    c.stepLabel = c.program.nameAt i := by
  unfold upcoming at h
  split at h
  · cases h
  · rename_i j hj
    obtain rfl : j = i := by omega
    simp only [stepLabel, hj, Program.nameAt]
    cases c.program.steps[j]? <;> rfl

/-- The name that is shown is the last one of those. -/
theorem getLast?_namesUpTo {c : Controller} (h : c.upcoming ≤ c.program.steps.length + 1) :
    (c.program.namesUpTo c.upcoming).getLast? = some c.stepLabel := by
  cases hup : c.upcoming with
  | zero =>
    have hnone : c.position = none := by
      unfold upcoming at hup
      split at hup
      · assumption
      · cases hup
    simp [Program.namesUpTo, stepLabel, hnone]
  | succ i =>
    rw [Program.namesUpTo_succ (by omega), List.getLast?_concat, stepLabel_of_upcoming hup]

theorem Begun.upcoming_le {c : Controller} (h : Begun c) :
    c.upcoming ≤ c.program.steps.length + 1 := by
  rcases h with ⟨_, hnone⟩ | hplaced
  · simp [upcoming, hnone]
  · by_cases hidle : c.stage = .idle
    · simp [upcoming, hplaced.past hidle]
    · exact Nat.le_succ_of_le (hplaced.upcoming_le hidle)

/-- More steps have been begun than there are, if and only if the program has been completed. -/
theorem Begun.idle_iff {c : Controller} (h : Begun c) :
    c.stage = .idle ↔ c.program.steps.length < c.upcoming := by
  rcases h with ⟨hstart, hnone⟩ | hplaced
  · simp [hstart, upcoming, hnone]
  · constructor
    · intro hidle
      simp [upcoming, hplaced.past hidle]
    · intro hlt
      by_contra hidle
      exact absurd (hplaced.upcoming_le hidle) (by omega)

/-! ## The second of the last change -/

/-- An event leaves the second of the last change as it is, or it is that second itself. -/
theorem stepStartedAt_handle (c : Controller) (event : ControlEvent) :
    (c.handle event).1.stepStartedAt = c.stepStartedAt ∨
      ∃ now, (event = .start now ∨ event = .tick now) ∧
        (c.handle event).1.stepStartedAt = now := by
  cases event with
  | start now => exact .inr ⟨now, .inl rfl, rfl⟩
  | temperatures reading received => exact .inl rfl
  | power reading received => exact .inl rfl
  | shutdown =>
    rw [handle, shutdown_eq]
    exact .inl rfl
  | tick now =>
    have ht := c.ticked now
    rw [handle]
    generalize (c.tick now).1 = next, (c.tick now).2 = commands at ht
    cases ht with
    | ended | waited | lagged | heated => exact .inl rfl
    | regulated => exact .inl (c.sameStep_regulate now).entered
    | begun | overran | warmed | caughtUp | entered | finished | left | gaveUp =>
      exact .inr ⟨now, .inr rfl, rfl⟩

end Controller
end DryKiln
