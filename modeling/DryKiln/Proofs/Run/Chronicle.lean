-- What the log of a run tells. After every event a run shows what has become of it, so with a sink
-- that takes everything its log names the steps that the program has come to, in their order, and
-- no other.
import DryKiln.Proofs.Control.Label
import DryKiln.Proofs.Run.Shown

namespace DryKiln
namespace Run

/-! ## The names in the log -/

/-- Where a controller stands that has been told of these events, and what was shown by then. -/
structure Named (program : Program) (c : Controller) (told : List ControlEvent)
    (calls : List LogWriter.Call) : Prop where
  begun : c.Begun
  program_eq : c.program = program
  entries : (Controller.new program).entries told =
    List.range (min c.upcoming program.steps.length)
  names : merged (LogWriter.names calls) = merged (program.namesUpTo c.upcoming)

theorem names_shown (calls : List LogWriter.Call) (rounds : Nat) (c : Controller) (now : Int) :
    LogWriter.names (calls ++ List.replicate rounds (shownOf c now)) =
      LogWriter.names calls ++ List.replicate rounds c.stepLabel := by
  simp [LogWriter.names, shownOf, Controller.status]

/-- The start is shown as the first of the names. -/
theorem named_start (program : Program) (now : Int) (rounds : Nat) :
    Named program ((Controller.new program).after [.start now]) [.start now]
      (List.replicate (rounds + 1)
        (shownOf ((Controller.new program).after [.start now]) now)) := by
  refine ⟨.inl ⟨rfl, rfl⟩, rfl, ?_, ?_⟩
  · rw [Controller.entries_singleton, Controller.entry_of_not_isStep rfl]
    simp [Controller.upcoming, Controller.after, Controller.run, Controller.handle,
      Controller.start, Controller.enter, Controller.new]
  · have hnames := names_shown [] (rounds + 1) ((Controller.new program).after [.start now]) now
    rw [List.nil_append] at hnames
    rw [hnames]
    exact merged_replicate [] rounds _

/-- A controller goes on, and is shown at least once. -/
theorem Named.onward {program : Program} {c d : Controller} {told more : List ControlEvent}
    {calls : List LogWriter.Call} (h : Named program c told calls)
    (hc : c = (Controller.new program).after told) (hd : d = c.after more) (hbegun : d.Begun)
    (honward : Controller.Onward c d (c.entries more)) (rounds : Nat) (now : Int) :
    Named program d (told ++ more) (calls ++ List.replicate (rounds + 1) (shownOf d now)) := by
  have hprogram : d.program = program := by rw [hd, Controller.after_program, h.program_eq]
  have hlast := Controller.getLast?_namesUpTo hbegun.upcoming_le
  rw [hprogram] at hlast
  refine ⟨hbegun, hprogram, ?_, ?_⟩
  · rw [Controller.entries_append, ← hc, h.entries]
    cases honward with
    | stays same none => rw [none, same, List.append_nil]
    | moves next fits one =>
      rw [h.program_eq] at fits one
      rw [one, next]
      split
      · rename_i hlt
        rw [Nat.min_eq_left (Nat.le_of_lt hlt), Nat.min_eq_left hlt, List.range_succ]
      · rw [Nat.min_eq_right (by omega), Nat.min_eq_right (by omega), List.append_nil]
  · rw [names_shown, merged_replicate, merged_concat_congr h.names]
    cases honward with
    | stays same =>
      rw [same] at hlast
      rw [same, merged_concat_last hlast]
    | moves next fits =>
      rw [h.program_eq] at fits
      rw [next, Program.namesUpTo_succ fits, Controller.stepLabel_of_upcoming next, hprogram]

/-- What an active run tells its controller makes it go on. -/
theorem onward_told {run : Run} (hphase : run.phase = .active) (hbegun : run.controller.Begun)
    (event : RunEvent) (now : Int) :
    run.told event now = [] ∨
      (run.controller.after (run.told event now)).Begun ∧
        Controller.Onward run.controller (run.controller.after (run.told event now))
          (run.controller.entries (run.told event now)) := by
  have hone : ∀ told : ControlEvent, told.isStart = false →
      (run.controller.after [told]).Begun ∧
        Controller.Onward run.controller (run.controller.after [told])
          (run.controller.entries [told]) := by
    intro told hs
    rw [Controller.entries_singleton]
    exact Controller.onward_handle hs hbegun
  have hpass : ∀ told : ControlEvent, told.isStart = false →
      (run.controller.after (run.passOn told)).Begun ∧
        Controller.Onward run.controller (run.controller.after (run.passOn told))
          (run.controller.entries (run.passOn told)) := by
    intro told hs
    unfold passOn
    split
    · exact Controller.onward_shutdown hs hbegun
    · exact hone told hs
  cases event with
  | begin => exact .inl (by simp [told, hphase])
  | tick =>
    rw [show run.told .tick now = run.passOn (.tick now) by simp [told, hphase]]
    exact .inr (hpass _ rfl)
  | temperatures reading =>
    rw [show run.told (.temperatures reading) now = run.passOn (.temperatures reading now) by
      simp [told, hphase]]
    exact .inr (hpass _ rfl)
  | power reading =>
    rw [show run.told (.power reading) now = run.passOn (.power reading now) by
      simp [told, hphase]]
    exact .inr (hpass _ rfl)
  | stop =>
    rw [show run.told .stop now = [.shutdown] by simp [told, hphase]]
    exact .inr (hone _ rfl)

/-- An event of which the controller is not told changes nothing and is not shown. -/
theorem ignored_of_told_nil {run : Run} {event : RunEvent} {now : Int}
    (h : run.told event now = []) :
    run.handle event now (.all true) = (run, []) ∧ run.shown event now = [] := by
  have hnot : ¬ (run.phase = .active ∧ event = .stop) := by
    rintro ⟨hphase, rfl⟩
    simp [told, hphase] at h
  refine ⟨?_, by simp [shown, rounds, h, hnot]⟩
  have hcourse := (run.answers_handle event now (.all true)).2
  rw [h] at hcourse
  generalize run.handle event now (.all true) = answer at hcourse
  obtain ⟨next, effects⟩ := answer
  generalize hnone : ([] : List ControlEvent) = none at hcourse
  cases hcourse with
  | ignored same nothing => exact Prod.ext same nothing
  | begun | brokeOff | wentOn => cases hnone
  | ended events => simp at hnone

theorem phase_of_told_ne_nil {run : Run} {event : RunEvent} {now : Int}
    (h : run.told event now ≠ []) : (run.handle event now (.all true)).1.phase ≠ .prepared := by
  have hcourse := (run.answers_handle event now (.all true)).2
  generalize run.told event now = told at h hcourse
  cases hcourse with
  | ignored => exact absurd rfl h
  | begun _ _ after | brokeOff _ _ after | wentOn _ _ after | ended _ _ _ after =>
    rw [after]
    simp

/-- What has been shown of a run that has begun names the steps that it has come to. -/
theorem named_hearing {run : Run} {program : Program} (hphase : run.phase = .prepared)
    (hnew : run.controller = .new program) (events : List (RunEvent × Int)) :
    if (run.hearing events).1.phase = .prepared then
      run.toldBy events = [] ∧ run.shownBy events = []
    else Named program (run.hearing events).1.controller (run.toldBy events)
      (run.shownBy events) := by
  induction events using List.reverseRecOn with
  | nil => exact if_pos hphase ▸ ⟨rfl, rfl⟩
  | append_singleton events last ih =>
    obtain ⟨event, now⟩ := last
    have hcontroller := run.controller_hearing events
    have hpass := ((run.hearing events).1.answers_handle event now (.all true)).1.controller
    rw [hearing_concat, toldBy_concat, shownBy_concat]
    rw [hnew] at hcontroller
    by_cases hnone : (run.hearing events).1.told event now = []
    · obtain ⟨hsame, hshown⟩ := ignored_of_told_nil hnone
      rw [hsame, hnone, hshown, List.append_nil, List.append_nil, List.append_nil]
      exact ih
    · have hrounds : (run.hearing events).1.rounds event now =
          (run.hearing events).1.rounds event now - 1 + 1 := by
        have := List.length_pos_iff.mpr hnone
        simp only [rounds]
        omega
      rw [if_neg (phase_of_told_ne_nil hnone), shown, hrounds, hpass]
      cases hbefore : (run.hearing events).1.phase with
      | prepared =>
        rw [hbefore, if_pos rfl] at ih
        obtain ⟨htold, hshown⟩ := ih
        have hbegin : event = .begin := by
          by_contra hne
          exact hnone ((told_of_prepared event now hbefore).mpr hne)
        have hstart : (run.hearing events).1.told event now = [.start now] := by
          simp [told, hbefore, hbegin]
        rw [htold, Controller.after_nil] at hcontroller
        rw [htold, hshown, hstart, hcontroller]
        exact named_start program now _
      | active =>
        rw [hbefore, if_neg (by simp)] at ih
        have honward := (onward_told hbefore ih.begun event now).resolve_left hnone
        exact ih.onward hcontroller rfl honward.1 honward.2 _ now
      | _ => exact absurd (by simp [told, hbefore]) hnone

/-! ## The seconds in the log -/

theorem seconds_told {run : Run} {event : RunEvent} {now : Int} :
    ∀ told ∈ run.told event now, ∀ second, told = .start second ∨ told = .tick second →
      second = now := by
  have hpass : ∀ first, (∀ second, first = .start second ∨ first = .tick second → second = now) →
      ∀ told ∈ run.passOn first, ∀ second, told = .start second ∨ told = .tick second →
        second = now := by
    intro first hfirst told htold
    unfold passOn at htold
    split at htold
    · rcases List.mem_pair.mp htold with rfl | rfl
      · exact hfirst
      · simp
    · rw [List.mem_singleton.mp htold]
      exact hfirst
  unfold told
  split
  · simp
  · exact hpass _ (by simp)
  · exact hpass _ (by simp)
  · exact hpass _ (by simp)
  · simp
  · simp

/-- The current step has been begun at the second of the event, or before. -/
theorem stepStartedAt_told (run : Run) (event : RunEvent) (now : Int) :
    (run.controller.after (run.told event now)).stepStartedAt = run.controller.stepStartedAt ∨
      (run.controller.after (run.told event now)).stepStartedAt = now := by
  refine Controller.after_invariant
    (P := fun d => d.stepStartedAt = run.controller.stepStartedAt ∨ d.stepStartedAt = now)
    (A := fun told => ∀ second, told = .start second ∨ told = .tick second → second = now)
    ?_ run.controller _ seconds_told (.inl rfl)
  intro c told hseconds hc
  rcases c.stepStartedAt_handle told with hsame | ⟨second, htold, hsecond⟩
  · rw [hsame]
    exact hc
  · exact .inr (hsecond.trans (hseconds second htold))

/-- What has been shown by these seconds, of a run that is at its current step since one of them. -/
structure Dated (openedAt : Int) (seconds : List Int) (run : Run) (calls : List LogWriter.Call) :
    Prop where
  ordered : LogWriter.Ordered openedAt calls
  shown : ∀ call ∈ calls, call.now ∈ seconds
  begun : run.phase ≠ .prepared → run.controller.stepStartedAt ∈ seconds

theorem ordered_append {since : Int} {calls : List LogWriter.Call} {call : LogWriter.Call}
    (h : LogWriter.Ordered since calls) (hcalls : ∀ earlier ∈ calls, earlier.now ≤ call.now)
    (hcall : since ≤ call.status.stepStartedAt ∧ call.status.stepStartedAt ≤ call.now)
    (rounds : Nat) : LogWriter.Ordered since (calls ++ List.replicate rounds call) := by
  refine ⟨fun other hother => ?_, List.pairwise_append.mpr ⟨h.order, ?_, ?_⟩⟩
  · rcases List.mem_append.mp hother with hmem | hmem
    · exact h.bounds other hmem
    · rw [List.eq_of_mem_replicate hmem]
      exact hcall
  · exact List.pairwise_replicate.mpr (.inr (Int.le_refl _))
  · intro earlier hearlier later hlater
    rw [List.eq_of_mem_replicate hlater]
    exact hcalls earlier hearlier

theorem Dated.next {openedAt now : Int} {seconds : List Int} {run : Run}
    {calls : List LogWriter.Call} (h : Dated openedAt seconds run calls) (event : RunEvent)
    (hopened : ∀ second ∈ seconds, openedAt ≤ second) (hpast : ∀ second ∈ seconds, second ≤ now)
    (hnow : openedAt ≤ now) :
    Dated openedAt (seconds ++ [now]) (run.handle event now (.all true)).1
      (calls ++ run.shown event now) := by
  have hpass := (run.answers_handle event now (.all true)).1.controller
  by_cases hnone : run.told event now = []
  · obtain ⟨hsame, hshown⟩ := ignored_of_told_nil hnone
    rw [hsame, hshown, List.append_nil]
    exact ⟨h.ordered, fun call hcall => List.mem_append_left _ (h.shown call hcall),
      fun hphase => List.mem_append_left _ (h.begun hphase)⟩
  · have hstarted :
        (run.controller.after (run.told event now)).stepStartedAt ∈ seconds ++ [now] := by
      by_cases hphase : run.phase = .prepared
      · have hbegin : event = .begin := by
          by_contra hne
          exact hnone ((told_of_prepared event now hphase).mpr hne)
        have hstart : run.told event now = [.start now] := by simp [told, hphase, hbegin]
        rw [hstart]
        exact List.mem_append_right _ (List.mem_singleton.mpr rfl)
      · rcases run.stepStartedAt_told event now with hsame | hsame
        · rw [hsame]
          exact List.mem_append_left _ (h.begun hphase)
        · rw [hsame]
          exact List.mem_append_right _ (List.mem_singleton.mpr rfl)
    have hbounds : openedAt ≤ (run.controller.after (run.told event now)).stepStartedAt ∧
        (run.controller.after (run.told event now)).stepStartedAt ≤ now := by
      rcases List.mem_append.mp hstarted with hmem | hmem
      · exact ⟨hopened _ hmem, hpast _ hmem⟩
      · rw [List.mem_singleton.mp hmem]
        exact ⟨hnow, Int.le_refl _⟩
    refine ⟨ordered_append h.ordered (fun call hcall => hpast _ (h.shown call hcall)) hbounds _,
      fun call hcall => ?_, fun _ => hpass ▸ hstarted⟩
    rcases List.mem_append.mp hcall with hmem | hmem
    · exact List.mem_append_left _ (h.shown call hmem)
    · rw [List.eq_of_mem_replicate hmem]
      exact List.mem_append_right _ (List.mem_singleton.mpr rfl)

/-- With a clock that never goes backwards, what is shown is in order. -/
theorem dated_hearing {run : Run} (hphase : run.phase = .prepared) {openedAt : Int}
    {events : List (RunEvent × Int)}
    (hclock : (openedAt :: events.map Prod.snd).Pairwise (· ≤ ·)) :
    Dated openedAt (events.map Prod.snd) (run.hearing events).1 (run.shownBy events) := by
  induction events using List.reverseRecOn with
  | nil => exact ⟨⟨by simp [shownBy], .nil⟩, by simp [shownBy], fun hnot => absurd hphase hnot⟩
  | append_singleton events last ih =>
    obtain ⟨event, now⟩ := last
    rw [List.map_append, ← List.cons_append, List.pairwise_append] at hclock
    obtain ⟨hbefore, -, hnow⟩ := hclock
    have hlast : ∀ second ∈ openedAt :: events.map Prod.snd, second ≤ now :=
      fun second hsecond => hnow second hsecond now (by simp)
    obtain ⟨hopened, hpast⟩ := List.forall_mem_cons.mp hlast
    rw [hearing_concat, shownBy_concat, List.map_append]
    exact (ih hbefore).next event (List.pairwise_cons.mp hbefore).1 hpast hopened

/-! ## The law -/

/-- The rows behind the header of a log. -/
def rowsBelow (text : String) : List (List String) := (recordsOf (LogWriter.header ++ text)).tail

theorem rowsBelow_rowsText {table : List (List String)} (h : ∀ row ∈ table, row ≠ []) :
    rowsBelow (rowsText table) = table := by
  have hrows : ∀ row ∈ logColumns :: table, row ≠ [] :=
    List.forall_mem_cons.mpr ⟨by simp [logColumns], h⟩
  have hread := recordsOf_rowsText hrows
  rw [rowsText_cons] at hread
  exact congrArg List.tail hread

end Run
end DryKiln
