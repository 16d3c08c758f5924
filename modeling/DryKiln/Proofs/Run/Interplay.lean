-- A run and its pollers, which work side by side. The run asks without waiting, takes what it finds,
-- and at the end tries to stop the pollers and lets go of them; the pollers work meanwhile, and nobody
-- says who is when at work. Nothing is lost on the way, and no poller is held up for good.
import DryKiln.Proofs.Control.Position
import DryKiln.Proofs.Device.Feed
import DryKiln.Proofs.Run.Effects
import Mathlib.Logic.Function.Basic
import Mathlib.Logic.Relation

namespace DryKiln

/-! ## Readings of either unit -/

/-- What a unit reports. -/
abbrev SensorUnit.Reading : SensorUnit → Type
  | .temperature => Temperatures
  | .power => PowerReading

/-- The event with which a reading of a unit reaches the run. -/
def RunEvent.arrival : (unit : SensorUnit) → unit.Reading → RunEvent
  | .temperature, reading => .temperatures reading
  | .power, reading => .power reading

/-- The reading of a unit that the controller records with an event. -/
def ControlEvent.recorded? : (unit : SensorUnit) → ControlEvent → Option unit.Reading
  | .temperature, .temperatures reading _ => some reading
  | .power, .power reading _ => some reading
  | _, _ => none

/-- The readings of a unit that have been recorded, in order. -/
def recordedIn (unit : SensorUnit) (told : List ControlEvent) : List unit.Reading :=
  told.filterMap (ControlEvent.recorded? unit)

@[simp] theorem recordedIn_append (unit : SensorUnit) (first second : List ControlEvent) :
    recordedIn unit (first ++ second) = recordedIn unit first ++ recordedIn unit second :=
  List.filterMap_append

/-- What an effect comes to for the pollers, one thing after the other. A run that has ended tries to
stop both of them before it lets go of either. -/
def RunEffect.chores : RunEffect → List (SensorUnit × Feed.Task)
  | .request unit => [(unit, .request .read)]
  | .archive => [(.temperature, .request .stop), (.power, .request .stop), (.temperature, .hangUp),
      (.temperature, .deafen), (.power, .hangUp), (.power, .deafen)]
  | .abandon => [(.temperature, .hangUp), (.temperature, .deafen), (.power, .hangUp),
      (.power, .deafen)]
  | .store _ | .command _ | .write _ => []

/-- The run has not ended. -/
def RunPhase.goesOn : RunPhase → Bool
  | .prepared | .active => true
  | .brokenOff | .over _ => false

/-! ## Moves -/

/-- A run and its two pollers at work. -/
structure Interplay where
  run : Run
  /-- What the run has told its controller. -/
  told : List ControlEvent
  /-- What the run has still to do before it looks for the next event. -/
  chores : List (SensorUnit × Feed.Task)
  feed : (unit : SensorUnit) → Feed unit.Reading

namespace Interplay

/-- A run that is about to begin, and pollers that have not been asked anything. -/
def begin (run : Run) : Interplay := ⟨run, [], [], fun _ => .fresh⟩

/-- The run hears an event. -/
def hear (state : Interplay) (event : RunEvent) (now : Int) (sink : SinkAnswers) : Interplay :=
  { state with
    run := (state.run.handle event now sink).1
    told := state.told ++ state.run.told event now
    chores := (state.run.handle event now sink).2.flatMap RunEffect.chores }

def setFeed (state : Interplay) (unit : SensorUnit) (feed : Feed unit.Reading) : Interplay :=
  { state with feed := Function.update state.feed unit feed }

/-- One move of the run or of a poller. Any of them may be next, at any time, and a unit may answer
whatever it likes. -/
inductive Move (state : Interplay) : Interplay → Prop where
  /-- The run hears of its beginning, of a tick or of a request to stop. -/
  | hears (event : RunEvent) (now : Int) (sink : SinkAnswers) (idle : state.chores = [])
      (own : event.unit? = none) : Move state (state.hear event now sink)
  /-- The run takes a reading that it finds, and records it. -/
  | takes (unit : SensorUnit) (reading : unit.Reading) (rest : Poller unit.Reading) (now : Int)
      (sink : SinkAnswers) (idle : state.chores = []) (active : state.run.phase = .active)
      (found : (state.feed unit).poller.receive = (rest, .reading reading)) :
      Move state ((state.setFeed unit { state.feed unit with poller := rest }).hear
        (.arrival unit reading) now sink)
  /-- The run does what is next to do. -/
  | does (unit : SensorUnit) (task : Feed.Task) (rest : List (SensorUnit × Feed.Task))
      (next : state.chores = (unit, task) :: rest) :
      Move state ({ state with chores := rest }.setFeed unit ((state.feed unit).perform task))
  /-- A poller takes a request, ends a read or hands over a reading. -/
  | works (unit : SensorUnit) (sensor : Sensor unit.Reading) (now begun reads : Nat)
      (next : Poller unit.Reading)
      (stepped : (state.feed unit).poller.step? sensor now begun = some (next, reads)) :
      Move state (state.setFeed unit ((state.feed unit).worked next))

/-- What may have become of a state after some moves. -/
abbrev Reaches : Interplay → Interplay → Prop := Relation.ReflTransGen Move

@[simp] theorem setFeed_self (state : Interplay) (unit : SensorUnit) (feed : Feed unit.Reading) :
    (state.setFeed unit feed).feed unit = feed := Function.update_self ..

theorem setFeed_of_ne (state : Interplay) {unit other : SensorUnit} (h : other ≠ unit)
    (feed : Feed unit.Reading) : (state.setFeed unit feed).feed other = state.feed other :=
  Function.update_of_ne h ..

theorem setFeed_same (state : Interplay) (unit : SensorUnit) :
    state.setFeed unit (state.feed unit) = state := by
  rw [setFeed, Function.update_eq_self]

/-- What holds of the feed that is set, and of the other one before, holds of both. -/
theorem forall_setFeed {state : Interplay} {unit : SensorUnit} {feed : Feed unit.Reading}
    {p : (unit : SensorUnit) → Feed unit.Reading → Prop} (hself : p unit feed)
    (hothers : ∀ other, other ≠ unit → p other (state.feed other)) (other : SensorUnit) :
    p other ((state.setFeed unit feed).feed other) :=
  (Function.forall_update_iff state.feed p).mpr ⟨hself, hothers⟩ other

@[simp] theorem hear_feed (state : Interplay) (event : RunEvent) (now : Int) (sink : SinkAnswers) :
    (state.hear event now sink).feed = state.feed := rfl

/-! ## What is recorded -/

/-- What a run records with an event of its own: nothing. -/
theorem recordedIn_told_own (run : Run) {event : RunEvent} (h : event.unit? = none) (now : Int)
    (unit : SensorUnit) : recordedIn unit (run.told event now) = [] := by
  have hpass : ∀ told, ControlEvent.recorded? unit told = none →
      recordedIn unit (run.passOn told) = [] := by
    intro told htold
    have hshutdown : ControlEvent.recorded? unit .shutdown = none := by cases unit <;> rfl
    unfold Run.passOn
    split <;> simp [recordedIn, htold, hshutdown]
  unfold Run.told
  split
  · cases unit <;> rfl
  · exact hpass _ (by cases unit <;> rfl)
  · cases h
  · cases h
  · cases unit <;> rfl
  · rfl

/-- An active run records a reading that it hears. -/
theorem recordedIn_told_arrival {run : Run} (h : run.phase = .active) (unit : SensorUnit)
    (reading : unit.Reading) (now : Int) :
    recordedIn unit (run.told (.arrival unit reading) now) = [reading] ∧
      ∀ other, other ≠ unit → recordedIn other (run.told (.arrival unit reading) now) = [] := by
  cases unit with
  | temperature =>
    simp only [RunEvent.arrival, Run.told, h, Run.passOn]
    refine ⟨by split <;> rfl, fun other hother => ?_⟩
    cases other with
    | temperature => exact absurd rfl hother
    | power => split <;> rfl
  | power =>
    simp only [RunEvent.arrival, Run.told, h, Run.passOn]
    refine ⟨by split <;> rfl, fun other hother => ?_⟩
    cases other with
    | temperature => split <;> rfl
    | power => exact absurd rfl hother

/-! ## Serving and leaving -/

/-- Whoever has hung up asks no more. -/
def Orderly (unit : SensorUnit) (chores : List (SensorUnit × Feed.Task)) : Prop :=
  chores.Pairwise fun first second =>
    first = (unit, .hangUp) → ∀ request, second ≠ (unit, .request request)

/-- How the run stands with a poller: as long as it goes on, it asks and listens; when it has ended,
it has let go of the poller, or has still to do so. -/
inductive Attends (state : Interplay) (unit : SensorUnit) : Prop where
  | serves (going : state.run.phase.goesOn = true)
      (asked : (state.feed unit).poller.asked = true) (heard : (state.feed unit).poller.heard = true)
      (requests : ∀ chore ∈ state.chores, chore.2 = .request .read)
  | leaves (ended : state.run.phase.goesOn = false)
      (hangsUp : (state.feed unit).poller.asked = true → (unit, .hangUp) ∈ state.chores)
      (deafens : (state.feed unit).poller.heard = true → (unit, .deafen) ∈ state.chores)
      (orderly : Orderly unit state.chores)
      (silent : (state.feed unit).poller.asked = false →
        ∀ request, (unit, .request request) ∉ state.chores)

theorem chores_of_stays {effects : List RunEffect} (h : Stays effects) :
    ∀ chore ∈ effects.flatMap RunEffect.chores, chore.2 = .request .read := by
  intro chore hchore
  obtain ⟨effect, heffect, hmem⟩ := List.mem_flatMap.mp hchore
  have hstays := h effect heffect
  cases effect with
  | request unit =>
    obtain rfl := List.mem_singleton.mp hmem
    rfl
  | archive | abandon => cases hstays
  | store | command | write => cases hmem

theorem chores_of_leavesAtLast {effects : List RunEffect} (h : LeavesAtLast effects)
    (unit : SensorUnit) : (unit, .hangUp) ∈ effects.flatMap RunEffect.chores ∧
      (unit, .deafen) ∈ effects.flatMap RunEffect.chores ∧
      Orderly unit (effects.flatMap RunEffect.chores) := by
  obtain ⟨front, last, rfl, hstays, hlast⟩ := h
  have hends : (unit, .hangUp) ∈ last.chores ∧ (unit, .deafen) ∈ last.chores ∧
      Orderly unit last.chores := by
    unfold Orderly
    cases last with
    | archive | abandon => cases unit <;> simp [RunEffect.chores]
    | _ => cases hlast
  obtain ⟨hhangUp, hdeafen, horderly⟩ := hends
  rw [List.flatMap_append, List.flatMap_singleton]
  refine ⟨List.mem_append_right _ hhangUp, List.mem_append_right _ hdeafen, ?_⟩
  -- nobody hangs up before the end
  have hfront : ∀ chore ∈ front.flatMap RunEffect.chores, chore ≠ (unit, .hangUp) := by
    rintro chore hchore rfl
    cases chores_of_stays hstays _ hchore
  refine List.pairwise_append.mpr ⟨?_, horderly, ?_⟩
  · apply List.pairwise_of_forall_mem_list
    exact fun first hfirst _ _ hhangsUp => absurd hhangsUp (hfront first hfirst)
  · exact fun first hfirst _ _ hhangsUp => absurd hhangsUp (hfront first hfirst)

variable {state next : Interplay} {unit : SensorUnit}

/-- Only the phase, the chores and the two ends of the poller matter. -/
theorem Attends.congr (h : state.Attends unit) (hphase : next.run.phase = state.run.phase)
    (hchores : next.chores = state.chores)
    (hasked : (next.feed unit).poller.asked = (state.feed unit).poller.asked)
    (hheard : (next.feed unit).poller.heard = (state.feed unit).poller.heard) :
    next.Attends unit := by
  cases h with
  | serves going asked heard requests =>
    refine .serves ?_ ?_ ?_ ?_
    · rw [hphase, going]
    · rw [hasked, asked]
    · rw [hheard, heard]
    · rw [hchores]
      exact requests
  | leaves ended hangsUp deafens orderly silent =>
    refine .leaves ?_ ?_ ?_ ?_ ?_
    · rw [hphase, ended]
    · rw [hasked, hchores]
      exact hangsUp
    · rw [hheard, hchores]
      exact deafens
    · rw [hchores]
      exact orderly
    · rw [hasked, hchores]
      exact silent

theorem Attends.ends_of_goesOn (h : state.Attends unit) (hgoing : state.run.phase.goesOn = true) :
    (state.feed unit).poller.asked = true ∧ (state.feed unit).poller.heard = true := by
  cases h with
  | serves going asked heard requests => exact ⟨asked, heard⟩
  | leaves ended => simp [ended] at hgoing

/-- A change of a feed that leaves the two ends of its poller alone. -/
theorem attends_setFeed (h : ∀ unit, state.Attends unit) {feed : Feed unit.Reading}
    (hasked : feed.poller.asked = (state.feed unit).poller.asked)
    (hheard : feed.poller.heard = (state.feed unit).poller.heard) (other : SensorUnit) :
    (state.setFeed unit feed).Attends other := by
  have hphase : (state.setFeed unit feed).run.phase = state.run.phase := rfl
  have hchores : (state.setFeed unit feed).chores = state.chores := rfl
  by_cases hother : other = unit
  · subst hother
    apply (h other).congr hphase hchores
    · rw [setFeed_self, hasked]
    · rw [setFeed_self, hheard]
  · apply (h other).congr hphase hchores
    · rw [setFeed_of_ne state hother]
    · rw [setFeed_of_ne state hother]

theorem Attends.hear (h : state.Attends unit) (hidle : state.chores = []) (event : RunEvent)
    (now : Int) (sink : SinkAnswers) : (state.hear event now sink).Attends unit := by
  have hcourse := (state.run.answers_handle event now sink).2
  generalize state.run.told event now = told at hcourse
  have hserves : state.run.phase.goesOn = true →
      (state.run.handle event now sink).1.phase.goesOn = true →
      Stays (state.run.handle event now sink).2 → (state.hear event now sink).Attends unit := by
    intro hgoing hnext hstays
    obtain ⟨hasked, hheard⟩ := h.ends_of_goesOn hgoing
    exact .serves hnext hasked hheard (chores_of_stays hstays)
  have hleaves : state.run.phase.goesOn = true →
      (state.run.handle event now sink).1.phase.goesOn = false →
      LeavesAtLast (state.run.handle event now sink).2 →
      (state.hear event now sink).Attends unit := by
    intro hgoing hnext hlast
    obtain ⟨hasked, hheard⟩ := h.ends_of_goesOn hgoing
    obtain ⟨hhangUp, hdeafen, horderly⟩ := chores_of_leavesAtLast hlast unit
    refine .leaves hnext (fun _ => hhangUp) (fun _ => hdeafen) horderly fun hsilent => ?_
    exact absurd (hasked.symm.trans hsilent) (by decide)
  cases hcourse with
  | ignored same nothing =>
    refine h.congr (congrArg Run.phase same) ?_ rfl rfl
    rw [hidle]
    exact congrArg (List.flatMap RunEffect.chores) nothing
  | begun second before after stays =>
    exact hserves (congrArg RunPhase.goesOn before) (congrArg RunPhase.goesOn after) stays
  | wentOn event before after inner stays =>
    exact hserves (congrArg RunPhase.goesOn before) (congrArg RunPhase.goesOn after) stays
  | brokeOff second before after leaves =>
    exact hleaves (congrArg RunPhase.goesOn before) (congrArg RunPhase.goesOn after) leaves
  | ended events last before after inner leaves =>
    exact hleaves (congrArg RunPhase.goesOn before) (congrArg RunPhase.goesOn after) leaves

/-- The ends of a poller after one of the chores. -/
theorem ends_of_chore (state : Interplay) (unit other : SensorUnit) (task : Feed.Task) :
    let feed := (state.setFeed other ((state.feed other).perform task)).feed unit
    (feed.poller.asked =
      if (other, task) = (unit, .hangUp) then false else (state.feed unit).poller.asked) ∧
    feed.poller.heard =
      if (other, task) = (unit, .deafen) then false else (state.feed unit).poller.heard := by
  by_cases hother : other = unit
  · subst hother
    simp only [setFeed_self, Feed.perform_asked, Feed.perform_heard, Prod.mk.injEq, true_and,
      and_self]
  · have hne : unit ≠ other := fun h => hother h.symm
    simp only [setFeed_of_ne state hne, Prod.mk.injEq, hother, false_and, if_false, and_self]

theorem Attends.does {other : SensorUnit} {task : Feed.Task}
    {rest : List (SensorUnit × Feed.Task)} (h : state.Attends unit)
    (hnext : state.chores = (other, task) :: rest) :
    Attends ({ state with chores := rest }.setFeed other ((state.feed other).perform task)) unit := by
  obtain ⟨hasked, hheard⟩ := ends_of_chore { state with chores := rest } unit other task
  dsimp only at hasked hheard
  have hrest : ∀ kept, (unit, kept) ∈ state.chores → (other, task) ≠ (unit, kept) →
      (unit, kept) ∈ rest := by
    intro kept hkept hne
    rw [hnext] at hkept
    exact (List.mem_cons.mp hkept).resolve_left fun heq => hne heq.symm
  cases h with
  | serves going asked heard requests =>
    rw [hnext] at requests
    have htask : task = .request .read := requests (other, task) List.mem_cons_self
    refine .serves going ?_ ?_ fun chore hchore => requests chore (List.mem_cons_of_mem _ hchore)
    · rw [hasked, asked, htask]
      simp
    · rw [hheard, heard, htask]
      simp
  | leaves ended hangsUp deafens orderly silent =>
    rw [hnext] at orderly
    obtain ⟨hhead, htail⟩ := List.pairwise_cons.mp orderly
    refine .leaves ended ?_ ?_ htail ?_
    · intro hstill
      rw [hasked] at hstill
      split at hstill
      · cases hstill
      · exact hrest _ (hangsUp hstill) ‹_›
    · intro hstill
      rw [hheard] at hstill
      split at hstill
      · cases hstill
      · exact hrest _ (deafens hstill) ‹_›
    · intro hsilent request hmem
      rw [hasked] at hsilent
      split at hsilent
      · rename_i hhangsUp
        exact hhead _ hmem hhangsUp request rfl
      · apply silent hsilent request
        rw [hnext]
        exact List.mem_cons_of_mem _ hmem

/-! ## What every state keeps -/

/-- What holds of a run and its pollers at every moment: the controller stands where it has been
told to, and what has been recorded of each unit is accounted for. -/
structure Good (program : Program) (state : Interplay) : Prop where
  controller : state.run.controller = (Controller.new program).after state.told
  accounts : ∀ unit, (state.feed unit).Accounts (recordedIn unit state.told)
  attends : ∀ unit, state.Attends unit

theorem good_begin (name : String) (program : Program) (settings : RunSettings) (openedAt : Int) :
    Good program (begin (Run.prepare name program settings openedAt)) := by
  refine ⟨rfl, fun unit => Feed.accounts_fresh, fun unit => ?_⟩
  exact .serves rfl rfl rfl (List.forall_mem_nil _)

variable {program : Program}

theorem controller_hear (h : state.run.controller = (Controller.new program).after state.told)
    (event : RunEvent) (now : Int) (sink : SinkAnswers) :
    (state.hear event now sink).run.controller =
      (Controller.new program).after (state.hear event now sink).told := by
  have hpass := (state.run.answers_handle event now sink).1.controller
  rw [h, ← Controller.after_append] at hpass
  exact hpass

theorem accounts_setFeed {recorded : (unit : SensorUnit) → List unit.Reading}
    {feed : Feed unit.Reading} (hself : feed.Accounts (recorded unit))
    (hothers : ∀ other, other ≠ unit → (state.feed other).Accounts (recorded other))
    (other : SensorUnit) : ((state.setFeed unit feed).feed other).Accounts (recorded other) :=
  forall_setFeed (p := fun unit feed => feed.Accounts (recorded unit)) hself hothers other

theorem Good.move (h : Good program state) (hmove : Move state next) : Good program next := by
  obtain ⟨hcontroller, haccounts, hattends⟩ := h
  cases hmove with
  | hears event now sink idle own =>
    refine ⟨controller_hear hcontroller event now sink, fun unit => ?_, fun unit => ?_⟩
    · have hsame : recordedIn unit (state.hear event now sink).told = recordedIn unit state.told := by
        simp only [Interplay.hear, recordedIn_append, recordedIn_told_own _ own, List.append_nil]
      rw [hsame]
      exact haccounts unit
    · exact (hattends unit).hear idle event now sink
  | takes unit reading rest now sink idle active found =>
    obtain ⟨hself, hothers⟩ := recordedIn_told_arrival active unit reading now
    obtain ⟨responses, -, hrest⟩ := Poller.responses_of_receive found
    have htold : ∀ other, recordedIn other ((state.setFeed unit
        { state.feed unit with poller := rest }).hear (.arrival unit reading) now sink).told =
        recordedIn other state.told ++ recordedIn other (state.run.told (.arrival unit reading) now) :=
      fun other => recordedIn_append other _ _
    refine ⟨controller_hear hcontroller (.arrival unit reading) now sink, ?_, fun other => ?_⟩
    · simp only [htold, hear_feed]
      apply accounts_setFeed
      · rw [hself]
        exact (haccounts unit).taken found
      · intro other hother
        rw [hothers other hother, List.append_nil]
        exact haccounts other
    · apply Attends.hear
      · apply attends_setFeed hattends
        · rw [hrest]
        · rw [hrest]
      · exact idle
  | does unit task rest next =>
    refine ⟨hcontroller, ?_, fun other => (hattends other).does next⟩
    exact accounts_setFeed ((haccounts unit).perform task) fun other _ => haccounts other
  | works unit sensor now begun reads next stepped =>
    have hworked := Poller.worked_of_step? stepped
    refine ⟨hcontroller, ?_, attends_setFeed hattends hworked.asked_eq hworked.heard_eq⟩
    exact accounts_setFeed ((haccounts unit).worked hworked) fun other _ => haccounts other

theorem Good.reaches (h : Good program state) (hreaches : Reaches state next) :
    Good program next := by
  induction hreaches with
  | refl => exact h
  | tail _ hmove ih => exact ih.move hmove

/-! ## A poller that has been left -/

theorem Attends.silent_of_left (h : state.Attends unit) (hleft : (state.feed unit).poller.Left)
    (request : PollerRequest) : (unit, .request request) ∉ state.chores := by
  cases h with
  | serves going asked heard requests =>
    rw [hleft.asked] at asked
    cases asked
  | leaves ended hangsUp deafens orderly silent => exact silent hleft.asked request

/-- A poller that has been left is on its own: no move touches it but one that it makes itself. -/
theorem Good.alone (h : Good program state) (hleft : (state.feed unit).poller.Left)
    (hmove : Move state next) : next.feed unit = state.feed unit ∨
      ∃ sensor now p, (state.feed unit).poller.Worked sensor now p ∧
        next.feed unit = (state.feed unit).worked p := by
  obtain ⟨-, haccounts, hattends⟩ := h
  cases hmove with
  | hears event now sink idle own => exact .inl rfl
  | takes other reading rest now sink idle active found =>
    have hgoing : state.run.phase.goesOn = true := congrArg RunPhase.goesOn active
    have hasked := ((hattends unit).ends_of_goesOn hgoing).1
    rw [hleft.asked] at hasked
    cases hasked
  | does other task rest next =>
    left
    by_cases hother : unit = other
    · subst hother
      have hnone := ((haccounts unit).unheard hleft.heard).1
      refine (setFeed_self ..).trans (Feed.perform_of_left hleft hnone ?_)
      rintro request rfl
      apply (hattends unit).silent_of_left hleft request
      rw [next]
      exact List.mem_cons_self
    · exact setFeed_of_ne _ hother _
  | works other sensor now begun reads p stepped =>
    by_cases hother : unit = other
    · subst hother
      refine .inr ⟨sensor, now, p, Poller.worked_of_step? stepped, ?_⟩
      exact setFeed_self ..
    · exact .inl (setFeed_of_ne _ hother _)

theorem Good.left_move (h : Good program state) (hleft : (state.feed unit).poller.Left)
    (hmove : Move state next) : (next.feed unit).poller.Left ∧
      (next.feed unit).outcomes.length + (next.feed unit).poller.pending ≤
        (state.feed unit).outcomes.length + (state.feed unit).poller.pending := by
  rcases h.alone hleft hmove with hsame | ⟨sensor, now, p, hworked, hsame⟩
  · rw [hsame]
    exact ⟨hleft, Nat.le_refl _⟩
  · rw [hsame]
    exact ⟨hworked.left hleft, Feed.outcomes_worked_le hworked⟩

theorem Good.left_reaches (h : Good program state) (hleft : (state.feed unit).poller.Left)
    (hreaches : Reaches state next) : (next.feed unit).poller.Left ∧
      (next.feed unit).outcomes.length + (next.feed unit).poller.pending ≤
        (state.feed unit).outcomes.length + (state.feed unit).poller.pending := by
  induction hreaches with
  | refl => exact ⟨hleft, Nat.le_refl _⟩
  | tail hbefore hmove ih =>
    obtain ⟨hstill, hle⟩ := ih
    obtain ⟨hnext, hmore⟩ := (h.reaches hbefore).left_move hstill hmove
    exact ⟨hnext, Nat.le_trans hmore hle⟩

/-- A course of things: at each moment somebody makes a move, or nobody does. -/
structure Course where
  moment : Nat → Interplay
  goes : ∀ i, moment (i + 1) = moment i ∨ Move (moment i) (moment (i + 1))

/-- The poller of a unit has its turn again and again, and time goes on. -/
def Course.Fair (course : Course) (unit : SensorUnit) : Prop :=
  ∀ instant i, ∃ j, i ≤ j ∧ ∃ sensor now begun, instant ≤ now ∧
    (course.moment (j + 1)).feed unit = ((course.moment j).feed unit).turn sensor now begun

/-- A poller that has its turn at every instant, while nobody else does anything. -/
theorem exists_fair (state : Interplay) (unit : SensorUnit) (sensor : Sensor unit.Reading) :
    ∃ course : Course, course.moment 0 = state ∧ course.Fair unit := by
  let moment : Nat → Interplay := fun i => Nat.rec state
    (fun now before => before.setFeed unit ((before.feed unit).turn sensor now now)) i
  have hgoes : ∀ i, moment (i + 1) = moment i ∨ Move (moment i) (moment (i + 1)) := by
    intro now
    change (moment now).setFeed unit (((moment now).feed unit).turn sensor now now) = moment now ∨
      Move (moment now)
        ((moment now).setFeed unit (((moment now).feed unit).turn sensor now now))
    unfold Feed.turn
    split
    · rename_i next reads hstep
      exact .inr (.works unit sensor now now reads next hstep)
    · exact .inl (setFeed_same _ unit)
  refine ⟨⟨moment, hgoes⟩, rfl, fun instant i => ?_⟩
  refine ⟨max instant i, Nat.le_max_right .., sensor, max instant i, max instant i,
    Nat.le_max_left .., ?_⟩
  exact setFeed_self ..

theorem Course.reaches (course : Course) {i j : Nat} (h : i ≤ j) :
    Reaches (course.moment i) (course.moment j) := by
  induction h with
  | refl => exact .refl
  | step _ ih =>
    rcases course.goes _ with hsame | hmove
    · rw [hsame]
      exact ih
    · exact ih.tail hmove

/-- Until a poller that has been left makes a move, nothing changes for it, and each move lowers its
load. -/
theorem Course.same_or_less (course : Course) {i j : Nat}
    (h : Good program (course.moment i)) (hleft : ((course.moment i).feed unit).poller.Left)
    (hij : i ≤ j) : (course.moment j).feed unit = (course.moment i).feed unit ∨
      ((course.moment j).feed unit).poller.load < ((course.moment i).feed unit).poller.load := by
  induction hij with
  | refl => exact .inl rfl
  | @step j hij ih =>
    rcases course.goes j with hsame | hmove
    · rw [hsame]
      exact ih
    · have hgood := h.reaches (course.reaches hij)
      have hstill := (h.left_reaches hleft (course.reaches hij)).1
      rcases hgood.alone hstill hmove with hsame | ⟨sensor, now, p, hworked, hsame⟩
      · rw [hsame]
        exact ih
      · have hless := hworked.load_lt
        have hpoller : ((course.moment (j + 1)).feed unit).poller = p := by rw [hsame]; rfl
        rcases ih with hstay | hlower
        · rw [hstay] at hless
          exact .inr (hpoller ▸ hless)
        · exact .inr (hpoller ▸ Nat.lt_trans hless hlower)

/-- A poller that has been left comes to its end. -/
theorem Course.exits (course : Course) (hfair : course.Fair unit)
    (h : Good program (course.moment 0)) (hleft : ((course.moment 0).feed unit).poller.Left) :
    ∃ i, ((course.moment i).feed unit).poller.isFinished = true := by
  suffices hfrom : ∀ load i, ((course.moment i).feed unit).poller.load = load →
      ∃ j, ((course.moment j).feed unit).poller.isFinished = true from hfrom _ 0 rfl
  intro load
  induction load using Nat.strongRecOn with
  | ind load ih =>
    intro i hload
    have hreaches := course.reaches (Nat.zero_le i)
    have hgood := h.reaches hreaches
    have hstill := (h.left_reaches hleft hreaches).1
    cases hfinished : ((course.moment i).feed unit).poller.isFinished with
    | true => exact ⟨i, hfinished⟩
    | false =>
      -- the next turn after the end of the read that may be going on
      obtain ⟨j, hij, sensor, now, begun, hlate, hturn⟩ :=
        hfair (((course.moment i).feed unit).poller.nextEnd.getD 0) i
      rcases course.same_or_less hgood hstill hij with hsame | hless
      · have hdue : ∀ ends, ((course.moment i).feed unit).poller.nextEnd = some ends →
            ends ≤ now := by
          intro ends hends
          rwa [hends] at hlate
        have hlower := Feed.load_turn_lt sensor begun hstill hfinished hdue
        rw [← hsame, ← hturn, hsame, hload] at hlower
        exact ih _ hlower (j + 1) rfl
      · exact ih _ (hload ▸ hless) j rfl

/-! ## The law -/

/-- What becomes of the readings of a unit, as far as one state of a run shows it. -/
structure Lossless (program : Program) (state : Interplay) (unit : SensorUnit) : Prop where
  /-- The snapshots of the controller come from the readings that have been recorded. -/
  controller : state.run.controller = (Controller.new program).after state.told
  /-- What has been recorded are the first readings that the unit has given, in order. The rest are at
  most four and one more, and as long as the run listens, these wait in the queue or are being handed
  over. -/
  recorded : ∃ rest, (state.feed unit).readings = recordedIn unit state.told ++ rest ∧
    rest.length ≤ Poller.capacity + 1 ∧ ((state.feed unit).poller.heard = true →
      rest = (state.feed unit).poller.responses ++ (state.feed unit).poller.held ∧
        (state.feed unit).poller.responses.length ≤ Poller.capacity)
  /-- A read that fails changes nothing, and its poller waits for the next request. -/
  failed : ∀ next, Move state next →
    (next.feed unit).outcomes = (state.feed unit).outcomes ++ [none] →
    next = state.setFeed unit ⟨{ (state.feed unit).poller with activity := .waiting },
      (state.feed unit).outcomes ++ [none]⟩
  /-- When the run has ended and nothing is left to do, the poller has been left. -/
  leaves : state.run.phase.goesOn = false → state.chores = [] → (state.feed unit).poller.Left
  /-- Not more than five reads of a poller that has been left are still to end. -/
  few : (state.feed unit).poller.Left → ∀ later, Reaches state later →
    (later.feed unit).outcomes.length ≤ (state.feed unit).outcomes.length + (Poller.capacity + 1)
  /-- A poller that has been left comes to its end, whatever its queues hold. -/
  exits : (state.feed unit).poller.Left → ∀ course : Course, course.moment 0 = state →
    course.Fair unit → ∃ i, ((course.moment i).feed unit).poller.isFinished = true

theorem outcomes_setFeed {other : SensorUnit} {feed : Feed other.Reading}
    (hsame : feed.outcomes = (state.feed other).outcomes) (unit : SensorUnit) :
    ((state.setFeed other feed).feed unit).outcomes = (state.feed unit).outcomes :=
  forall_setFeed (p := fun unit feed => feed.outcomes = (state.feed unit).outcomes) hsame
    (fun _ _ => rfl) unit

/-- Reads end in the moves of their own poller, and in no others. -/
theorem Move.ended (h : Move state next) (unit : SensorUnit) :
    (next.feed unit).outcomes = (state.feed unit).outcomes ∨
      ∃ sensor now p, (state.feed unit).poller.Worked sensor now p ∧
        next = state.setFeed unit ((state.feed unit).worked p) := by
  cases h with
  | hears event now sink idle own => exact .inl rfl
  | takes other reading rest now sink idle active found =>
    have hsame : Feed.outcomes { state.feed other with poller := rest } =
        (state.feed other).outcomes := rfl
    exact .inl (outcomes_setFeed hsame unit)
  | does other task rest next =>
    have hsame : ((state.feed other).perform task).outcomes = (state.feed other).outcomes := rfl
    exact .inl (outcomes_setFeed hsame unit)
  | works other sensor now begun reads p stepped =>
    by_cases hunit : unit = other
    · subst hunit
      exact .inr ⟨sensor, now, p, Poller.worked_of_step? stepped, rfl⟩
    · left
      rw [setFeed_of_ne state hunit]

theorem failed_move (h : Move state next)
    (hfailed : (next.feed unit).outcomes = (state.feed unit).outcomes ++ [none]) :
    next = state.setFeed unit ⟨{ (state.feed unit).poller with activity := .waiting },
      (state.feed unit).outcomes ++ [none]⟩ := by
  rcases h.ended unit with hsame | ⟨sensor, now, p, hworked, rfl⟩
  · simp [hsame] at hfailed
  · rw [setFeed_self] at hfailed
    have hended : (state.feed unit).poller.ended p = [none] := List.append_cancel_left hfailed
    rw [Feed.worked, hended, hworked.failed hended]

theorem Attends.left (h : state.Attends unit) (hended : state.run.phase.goesOn = false)
    (hdone : state.chores = []) : (state.feed unit).poller.Left := by
  cases h with
  | serves going asked heard requests =>
    rw [hended] at going
    cases going
  | leaves ended hangsUp deafens orderly silent =>
    rw [hdone] at hangsUp deafens
    refine ⟨?_, ?_⟩
    · cases hasked : (state.feed unit).poller.asked with
      | false => rfl
      | true => cases hangsUp hasked
    · cases hheard : (state.feed unit).poller.heard with
      | false => rfl
      | true => cases deafens hheard

theorem Good.lossless (h : Good program state) (unit : SensorUnit) :
    Lossless program state unit := by
  have haccounts := h.accounts unit
  refine ⟨h.controller, ?_, fun next hmove => failed_move hmove, (h.attends unit).left, ?_, ?_⟩
  · obtain ⟨rest, hreadings, hlength⟩ := haccounts.rest
    refine ⟨rest, hreadings, hlength, fun hheard => ⟨?_, haccounts.within.responses⟩⟩
    exact List.append_cancel_left (hreadings.symm.trans (haccounts.heard hheard))
  · intro hleft later hreaches
    have hle := (h.left_reaches hleft hreaches).2
    have hpending := Poller.pending_le haccounts.within
    omega
  · rintro hleft course rfl hfair
    exact course.exits hfair h hleft

/-- Nothing is lost between a run and its pollers, however their moves follow each other and whichever
reads fail. -/
theorem nothing_is_lost (name : String) (program : Program) (settings : RunSettings)
    (openedAt : Int) {state : Interplay}
    (h : Reaches (begin (Run.prepare name program settings openedAt)) state) (unit : SensorUnit) :
    Lossless program state unit :=
  ((good_begin name program settings openedAt).reaches h).lossless unit

/-- A run that asks twice for the temperatures, is told them once, and is stopped then: its poller is
still at work, and comes to its end. -/
theorem nothing_is_lost_of_two_reads :
    ∃ state, Reaches (begin (Run.prepare "oak" Controller.twoRests ⟨1000, 60, 60⟩ 0)) state ∧
      (state.feed .temperature).outcomes = [none, some ⟨21, 20⟩] ∧
      recordedIn .temperature state.told = [⟨21, 20⟩] ∧
      (state.feed .temperature).poller.isFinished = false ∧
      Lossless Controller.twoRests state .temperature ∧
      ∃ course : Course, course.moment 0 = state ∧ course.Fair .temperature ∧
        ∃ i, ((course.moment i).feed .temperature).poller.isFinished = true := by
  have start : Reaches (begin (Run.prepare "oak" Controller.twoRests ⟨1000, 60, 60⟩ 0)) _ := .refl
  have begun := start.tail (.hears .begin 100 (.all false) rfl rfl)
  -- the first read fails
  have ticked := begun.tail (.hears .tick 200 (.all false) rfl rfl)
  have asked := (ticked.tail (.does _ _ _ rfl)).tail (.does _ _ _ rfl)
  have reads := asked.tail
    (.works .temperature ⟨10, fun _ => .error (.transport "timeout")⟩ 0 0 _ _ rfl)
  have failed := reads.tail
    (.works .temperature ⟨10, fun _ => .error (.transport "timeout")⟩ 10 1 _ _ rfl)
  -- the second one gives a reading, which is recorded
  have tickedAgain := failed.tail (.hears .tick 201 (.all false) rfl rfl)
  have askedAgain := (tickedAgain.tail (.does _ _ _ rfl)).tail (.does _ _ _ rfl)
  have readsAgain := askedAgain.tail (.works .temperature ⟨10, fun _ => .ok ⟨21, 20⟩⟩ 20 1 _ _ rfl)
  have holds := readsAgain.tail (.works .temperature ⟨10, fun _ => .ok ⟨21, 20⟩⟩ 30 2 _ _ rfl)
  have hands := holds.tail (.works .temperature ⟨10, fun _ => .ok ⟨21, 20⟩⟩ 30 2 _ _ rfl)
  have taken := hands.tail (.takes .temperature ⟨21, 20⟩ _ 202 (.all false) rfl rfl rfl)
  -- the run ends and lets go of both pollers
  have stopped := taken.tail (.hears .stop 203 (.all false) rfl rfl)
  have toldToStop := (stopped.tail (.does _ _ _ rfl)).tail (.does _ _ _ rfl)
  have left := (toldToStop.tail (.does _ _ _ rfl)).tail (.does _ _ _ rfl)
  have leftBoth := (left.tail (.does _ _ _ rfl)).tail (.does _ _ _ rfl)
  have hlossless := nothing_is_lost "oak" Controller.twoRests ⟨1000, 60, 60⟩ 0 leftBoth .temperature
  obtain ⟨course, hbefore, hfair⟩ := exists_fair _ .temperature ⟨10, fun _ => .ok ⟨21, 20⟩⟩
  refine ⟨_, leftBoth, rfl, rfl, rfl, hlossless, course, hbefore, hfair, ?_⟩
  exact hlossless.exits (hlossless.leaves rfl rfl) course hbefore hfair

end Interplay
end DryKiln
