-- The laws of turning off. A controller that turns the actuators off remembers it until the next
-- start, and turns them off no second time; a tick that then switches one on leaves it on.
import DryKiln.Proofs.Control.History
import Mathlib.Data.List.Nodup

namespace DryKiln

/-! ## What the actuators were told last -/

/-- The percentage that an actuator was told last. -/
def lastPercent (channel : Channel) (sent : List Command) : Option UInt8 :=
  (sent.reverse.find? fun command => command.channel = channel).map Command.percent

/-- Every actuator was told last to be off. -/
def IsOff (sent : List Command) : Prop := ∀ channel, lastPercent channel sent = some 0

theorem lastPercent_append (channel : Channel) (first second : List Command) :
    lastPercent channel (first ++ second) =
      (lastPercent channel second).or (lastPercent channel first) := by
  unfold lastPercent
  rw [List.reverse_append, List.find?_append]
  cases second.reverse.find? fun command => command.channel = channel <;> rfl

theorem isOff_append_allOff (sent : List Command) : IsOff (sent ++ allOff) := by
  intro channel
  rw [lastPercent_append]
  cases channel <;> rfl

/-- Commands without power leave everything off. -/
theorem IsOff.append {sent more : List Command} (h : IsOff sent)
    (hmore : ∀ command ∈ more, command.percent = 0) : IsOff (sent ++ more) := by
  intro channel
  rw [lastPercent_append]
  unfold lastPercent
  cases hfind : more.reverse.find? fun command => command.channel = channel with
  | none => exact h channel
  | some command =>
    have hmem := List.mem_of_find?_eq_some hfind
    simp [hmore command (by simpa using hmem)]

/-- Of commands to different actuators each is the last one of its actuator. -/
theorem lastPercent_of_nodup {sent : List Command} (h : (sent.map Command.channel).Nodup)
    {command : Command} (hmem : command ∈ sent) :
    lastPercent command.channel sent = some command.percent := by
  unfold lastPercent
  cases hfind : sent.reverse.find? fun other => other.channel = command.channel with
  | none =>
    have := List.find?_eq_none.mp hfind command (by simpa using hmem)
    simp at this
  | some other =>
    have hother : other ∈ sent := by simpa using List.mem_of_find?_eq_some hfind
    have hchannel : other.channel = command.channel := by simpa using List.find?_some hfind
    rw [List.inj_on_of_nodup_map h hother hmem hchannel]
    rfl

theorem commands_nodup (percents : PerChannel UInt8) :
    (percents.commands.map Command.channel).Nodup := by
  have h : percents.commands.map Command.channel = Channel.all := rfl
  rw [h]
  decide

namespace Controller

/-! ## When the actuators are turned off -/

theorem offCommands_of_stopped {c : Controller} (h : c.stopped = true) : c.offCommands = [] := by
  simp [offCommands, h]

theorem offCommands_of_not_stopped {c : Controller} (h : c.stopped = false) :
    c.offCommands = allOff := by
  simp [offCommands, h]

/-- A tick ends the program and turns the actuators off, or it does neither. -/
theorem tick_ends_or_goes_on (c : Controller) (now : Int) :
    ((c.tick now).1.stage.isTerminal = c.stage.isTerminal ∧
      (c.tick now).1.stopped = c.stopped) ∨
    (c.stage.isTerminal = false ∧ (c.tick now).1.stage.isTerminal = true ∧
      (c.tick now).1.stopped = true ∧ (c.tick now).2 = c.offCommands) := by
  have ht := c.ticked now
  generalize (c.tick now).1 = next, (c.tick now).2 = commands at ht
  cases ht with
  | ended stage => exact Or.inl ⟨rfl, rfl⟩
  | begun stage => exact Or.inl ⟨by rw [stage]; rfl, rfl⟩
  | overran started active late => exact Or.inr ⟨active, rfl, rfl, rfl⟩
  | waited stage => exact Or.inl ⟨rfl, rfl⟩
  | warmed stage => exact Or.inl ⟨by rw [stage]; rfl, rfl⟩
  | lagged stage => exact Or.inl ⟨rfl, rfl⟩
  | heated stage => exact Or.inl ⟨rfl, rfl⟩
  | caughtUp stage => exact Or.inl ⟨by rw [stage]; rfl, rfl⟩
  | entered step stage => exact Or.inl ⟨by rw [stage]; exact Stage.isTerminal_ofKind _, rfl⟩
  | finished stage => exact Or.inr ⟨by rw [stage]; rfl, rfl, rfl, rfl⟩
  | left stage => exact Or.inl ⟨by rw [Stage.not_isTerminal_of_isStep stage]; rfl, rfl⟩
  | gaveUp inTime late => exact Or.inr ⟨by rw [late.1]; rfl, rfl, rfl, rfl⟩
  | regulated stage => exact Or.inl ⟨by simp [refreshed], by simp [refreshed]⟩

theorem tick_of_isTerminal {c : Controller} (now : Int) (h : c.stage.isTerminal = true) :
    c.tick now = (c, []) := by
  simp [tick, h]

/-- A tick sends no actuator two commands. -/
theorem tick_channels_nodup (c : Controller) (now : Int) :
    ((c.tick now).2.map Command.channel).Nodup := by
  have hoff : (c.offCommands.map Command.channel).Nodup := by
    unfold offCommands
    split
    · exact List.nodup_nil
    · exact commands_nodup _
  have ht := c.ticked now
  generalize (c.tick now).1 = next, (c.tick now).2 = commands at ht
  cases ht with
  | overran | finished | gaveUp => exact hoff
  | warmed | heated => exact List.nodup_singleton _
  | regulated =>
    rcases c.regulate_cases now with heq | ⟨step, table, _, heq⟩
    · rw [heq]; exact List.nodup_nil
    · rw [heq]; exact commands_nodup _
  | _ => exact List.nodup_nil

/-- Since the latest start the actuators have been turned off, by a shutdown or because the program
is over. -/
def Released (c : Controller) (past : List ControlEvent) : Prop :=
  ∃ before event rest, past = before ++ event :: rest ∧ (∀ e ∈ rest, e.isStart = false) ∧
    (event = .shutdown ∨ ((c.after before).stage.isTerminal = false ∧
      (c.after (before ++ [event])).stage.isTerminal = true))

theorem released_concat {c : Controller} {past : List ControlEvent} {event : ControlEvent} :
    Released c (past ++ [event]) ↔ (event.isStart = false ∧ Released c past) ∨
      event = .shutdown ∨ ((c.after past).stage.isTerminal = false ∧
        (c.after (past ++ [event])).stage.isTerminal = true) := by
  constructor
  · -- the cause is the last event, or it is found in what comes before that
    rintro ⟨before, cause, rest, heq, hrest, hcause⟩
    rcases List.eq_nil_or_concat rest with rfl | ⟨rest', last, rfl⟩
    · obtain ⟨rfl, hlast⟩ := List.append_inj' heq rfl
      obtain rfl : event = cause := by simpa using hlast
      exact Or.inr hcause
    · have heq' : past ++ [event] = (before ++ cause :: rest') ++ [last] := by simp [heq]
      obtain ⟨rfl, hlast⟩ := List.append_inj' heq' rfl
      obtain rfl : event = last := by simpa using hlast
      exact Or.inl ⟨hrest event (by simp), before, cause, rest', rfl,
        fun e he => hrest e (by simp [he]), hcause⟩
  · rintro (⟨hstart, before, cause, rest, rfl, hrest, hcause⟩ | hcause)
    · refine ⟨before, cause, rest ++ [event], by simp, ?_, hcause⟩
      intro e he
      rcases List.mem_append.mp he with he | he
      · exact hrest e he
      · rw [List.mem_singleton.mp he]; exact hstart
    · exact ⟨past, event, [], rfl, by simp, hcause⟩

theorem not_released_nil (c : Controller) : ¬ Released c [] := by
  rintro ⟨before, event, rest, heq, _⟩
  simp at heq

/-- A controller remembers that it has turned the actuators off. -/
theorem stopped_iff_released (program : Program) (past : List ControlEvent) :
    ((new program).after past).stopped = true ↔ Released (new program) past := by
  induction past using List.reverseRecOn with
  | nil => simpa [new] using not_released_nil (new program)
  | append_singleton past event ih =>
    rw [released_concat, ← ih, after_concat]
    generalize (new program).after past = c
    cases event with
    | start now => simp [handle, start, enter, ControlEvent.isStart, Stage.isTerminal]
    | temperatures reading received =>
      simp [handle, recordTemperatures, ControlEvent.isStart]
    | power reading received =>
      simp [handle, recordPower, ControlEvent.isStart]
    | shutdown => simp [handle, shutdown_eq]
    | tick now =>
      simp only [handle, ControlEvent.isStart, true_and, reduceCtorEq, false_or]
      rcases c.tick_ends_or_goes_on now with ⟨hstage, hstopped⟩ | ⟨hactive, hover, hstopped, _⟩
      · rw [hstage, hstopped]
        simp
      · simp [hactive, hover, hstopped]

/-- The actuators have been turned off when the program is over. -/
theorem released_of_isTerminal (program : Program) (past : List ControlEvent)
    (h : ((new program).after past).stage.isTerminal = true) : Released (new program) past := by
  induction past using List.reverseRecOn with
  | nil => simp [new, Stage.isTerminal] at h
  | append_singleton past event ih =>
    rw [released_concat]
    by_cases hbefore : ((new program).after past).stage.isTerminal = true
    · refine Or.inl ⟨?_, ih hbefore⟩
      cases event with
      | start now => simp [after_concat, handle, start, enter, Stage.isTerminal] at h
      | _ => rfl
    · exact Or.inr (Or.inr ⟨by simpa using hbefore, h⟩)

/-- Whatever turns the actuators off for the first time since a start sends the three commands. -/
theorem sent_of_first_release {c : Controller} {event : ControlEvent} (hc : c.stopped = false)
    (h : (c.handle event).1.stopped = true) : (c.handle event).2 = allOff := by
  cases event with
  | start now => simp [handle, start, enter] at h
  | temperatures reading received => simp [handle, recordTemperatures, hc] at h
  | power reading received => simp [handle, recordPower, hc] at h
  | shutdown => simp only [handle, shutdown_eq, offCommands_of_not_stopped hc]
  | tick now =>
    rcases c.tick_ends_or_goes_on now with ⟨_, hstopped⟩ | ⟨_, _, _, hsent⟩
    · simp [handle, hstopped, hc] at h
    · rw [handle, hsent, offCommands_of_not_stopped hc]

/-! ## The laws -/

/-- After a shutdown, or once the program is over, all actuators are off until the next start, as
long as no tick of a program that is not over sends an actuator any power: one that does leaves it
on. -/
theorem off_after_release_iff (program : Program) (events : List ControlEvent) :
    ((∀ past, past <+: events → Released (new program) past → IsOff ((new program).sent past)) ↔
      ∀ past now, past ++ [.tick now] <+: events → Released (new program) past →
        ((new program).after past).stage.isTerminal = false →
        ∀ command ∈ (((new program).after past).tick now).2, command.percent = 0) ∧
    (((new program).after events).stage.isTerminal = true → Released (new program) events) := by
  refine ⟨⟨?_, ?_⟩, released_of_isTerminal program events⟩
  · -- a tick sends an actuator one command at most, so that is what it was told last
    intro hoff past now hprefix hreleased _ command hmem
    have hnext : Released (new program) (past ++ [.tick now]) :=
      released_concat.mpr (Or.inl ⟨rfl, hreleased⟩)
    have hlast := hoff _ hprefix hnext command.channel
    rw [sent_concat, lastPercent_append, handle,
      lastPercent_of_nodup (tick_channels_nodup _ now) hmem] at hlast
    simpa using hlast
  · intro hticks past
    induction past using List.reverseRecOn with
    | nil => exact fun _ h => absurd h (not_released_nil _)
    | append_singleton past event ih =>
      intro hprefix hreleased
      have hpast : past <+: events := (List.prefix_append past [event]).trans hprefix
      rw [sent_concat]
      -- the event comes after a release, or it is one
      by_cases hbefore : Released (new program) past
      · refine (ih hpast hbefore).append ?_
        have hstopped := (stopped_iff_released program past).mpr hbefore
        cases event with
        | start now => simp [handle, start, enter]
        | temperatures reading received => simp [handle]
        | power reading received => simp [handle]
        | shutdown => simp [handle, shutdown_eq, offCommands_of_stopped hstopped]
        | tick now =>
          by_cases hover : ((new program).after past).stage.isTerminal = true
          · simp [handle, tick_of_isTerminal now hover]
          · exact hticks past now hprefix hbefore (by simpa using hover)
      · have hstopped : ((new program).after past).stopped = false := by
          rw [← stopped_iff_released] at hbefore
          simpa using hbefore
        rw [← stopped_iff_released, after_concat] at hreleased
        rw [sent_of_first_release hstopped hreleased]
        exact isOff_append_allOff _

/-- A program of one step with full heat. -/
def oneHeatedRest : Program where
  name := "oak"
  steps := [⟨"rest", .acclimate, some 40, some 10, ⟨some (.constant 100), none, none⟩⟩]
  maxRuntime := none

/-- A tick after a shutdown turns the heater on again, and it is on when the program is over. -/
theorem heater_on_after_release : ∃ past : List ControlEvent,
    Released (new oneHeatedRest) past ∧ ((new oneHeatedRest).after past).stage = .idle ∧
      lastPercent .heater ((new oneHeatedRest).sent past) = some 100 ∧
      ¬ IsOff ((new oneHeatedRest).sent past) := by
  let past : List ControlEvent := [.start 1, .tick 2, .temperatures ⟨20, 20⟩ 2, .power .zero 2,
    .tick 3, .tick 4, .tick 5, .shutdown, .tick 6, .tick 20, .tick 21]
  have hidle : ((new oneHeatedRest).after past).stage = .idle := by decide
  have hheater : lastPercent .heater ((new oneHeatedRest).sent past) = some 100 := by decide
  refine ⟨past, released_of_isTerminal _ _ (by rw [hidle]; rfl), hidle, hheater, fun hoff => ?_⟩
  have := hheater.symm.trans (hoff .heater)
  simp at this

end Controller
end DryKiln
