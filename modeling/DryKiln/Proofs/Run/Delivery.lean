-- How the commands of a run reach the power unit. A run hears of things and has something to do after
-- each; the gateway delivers meanwhile. They take turns in any order, and clocks, units, files and the
-- log may answer as they like. No command is lost, doubled or overtaken on its way.
import DryKiln.Bench.LiveRun
import DryKiln.Proofs.Control.TurnOff
import DryKiln.Proofs.Run.Effects
import Mathlib.Logic.Relation

namespace DryKiln

open Relation (ReflTransGen)

/-! ## Moves -/

/-- A run at work, and what it wants done that has not been done yet. It is noted what the
controller has been told and what has been handed to the power unit. -/
structure Underway where
  site : BenchSite
  live : LiveRun
  todo : List RunEffect
  told : List ControlEvent
  handed : List Command
deriving DecidableEq

namespace Underway

/-- Before the run begins. -/
def fresh (site : BenchSite) (live : LiveRun) : Underway := ⟨site, live, [], [], []⟩

/-- The run hears of something. The delivery begins with the run. -/
def hears (s : Underway) (event : RunEvent) (now : Int) (sink : SinkAnswers) : Underway :=
  { s with
    live := { s.live with
      run := (s.live.run.handle event now sink).1
      gateway := if event = .begin then s.live.gateway.start else s.live.gateway }
    todo := (s.live.run.handle event now sink).2
    told := s.told ++ s.live.run.told event now }

/-- The first thing that the run wants is done. -/
def performs (s : Underway) (effect : RunEffect) (rest : List RunEffect) : Underway :=
  { s with
    site := (LiveRun.perform (s.site, s.live) effect).1
    live := (LiveRun.perform (s.site, s.live) effect).2
    todo := rest }

/-- A command is handed to the power unit, which may take it or not. -/
def delivers (s : Underway) (gateway : Gateway) (command : Option Command) : Underway :=
  { s with
    site := { s.site with kiln := match command with
      | some command => s.site.kiln.deliver command
      | none => s.site.kiln }
    live := { s.live with gateway }
    handed := s.handed ++ command.toList }

end Underway

/-- What is done without anything new. -/
inductive Labour : Underway → Underway → Prop where
  | perform {s : Underway} {effect : RunEffect} {rest : List RunEffect}
      (todo : s.todo = effect :: rest) : Labour s (s.performs effect rest)
  | deliver {s : Underway} {gateway : Gateway} {command : Option Command}
      (next : s.live.gateway.step? = some (gateway, command)) : Labour s (s.delivers gateway command)

/-- One move. A run hears of nothing before it has done what it wanted. Elsewhere anything may
happen: to the clock, the units and their pollers, the files and the log. -/
inductive Move : Underway → Underway → Prop where
  | labour {s s' : Underway} (labour : Labour s s') : Move s s'
  | event {s : Underway} (event : RunEvent) (now : Int) (sink : SinkAnswers) (idle : s.todo = []) :
      Move s (s.hears event now sink)
  | elsewhere {s : Underway} (site : BenchSite) (live : LiveRun) (run : live.run = s.live.run)
      (gateway : live.gateway = s.live.gateway) : Move s { s with site, live }

/-! ## The gateway -/

theorem Gateway.send_of_working {g : Gateway} (command : Command) (hopen : g.isOpen = true)
    (hworking : g.delivery = .working) :
    g.send command = { g with commands := g.commands ++ [command] } := by
  simp [send, hopen, hworking]

theorem Gateway.start_of_ne_ready {g : Gateway} (h : g.delivery ≠ .ready) : g.start = g := by
  simp [start, h]

/-- A step of the delivery takes the oldest command, or ends the delivery when there is none left
and none will come. -/
theorem Gateway.step_cases {g next : Gateway} {command : Option Command}
    (h : g.step? = some (next, command)) :
    g.delivery = .working ∧
      ((∃ first rest, g.commands = first :: rest ∧ next = { g with commands := rest } ∧
          command = some first) ∨
        (g.commands = [] ∧ g.isOpen = false ∧ next = { g with delivery := .finished } ∧
          command = none)) := by
  unfold step? at h
  split at h
  · rename_i hworking
    refine ⟨hworking, ?_⟩
    split at h
    · rename_i first rest hcommands
      simp only [Option.some.injEq, Prod.mk.injEq] at h
      exact Or.inl ⟨first, rest, hcommands, h.1.symm, h.2.symm⟩
    · rename_i hcommands
      split at h
      · cases h
      · rename_i hclosed
        simp only [Option.some.injEq, Prod.mk.injEq] at h
        exact Or.inr ⟨hcommands, by simpa using hclosed, h.1.symm, h.2.symm⟩
  · cases h

/-- What doing an effect means to the gateway. -/
def Gateway.after (g : Gateway) : RunEffect → Gateway
  | .command command => g.send command
  | .archive | .abandon => g.close
  | _ => g

theorem Gateway.after_of_stays {g : Gateway} {effect : RunEffect} (hopen : g.isOpen = true)
    (hworking : g.delivery = .working) (h : effect.leaves = false) :
    g.after effect = { g with commands := g.commands ++ effect.command?.toList } := by
  cases effect with
  | command command => exact send_of_working command hopen hworking
  | archive | abandon => simp [RunEffect.leaves] at h
  | _ => simp [after, RunEffect.command?]

theorem Gateway.after_of_leaves {effect : RunEffect} (g : Gateway) (h : effect.leaves = true) :
    g.after effect = g.close ∧ effect.command? = none := by
  cases effect with
  | archive | abandon => exact ⟨rfl, rfl⟩
  | _ => simp [RunEffect.leaves] at h

/-- No command is lost on its way into the gateway as long as that is open. -/
theorem Gateway.after_commands {g : Gateway} (effect : RunEffect) (hopen : g.isOpen = true)
    (hworking : g.delivery = .working) :
    (g.after effect).commands = g.commands ++ effect.command?.toList := by
  by_cases h : effect.leaves = true
  · obtain ⟨hafter, hnone⟩ := g.after_of_leaves h
    simp [hafter, hnone, close]
  · rw [after_of_stays hopen hworking (by simpa using h)]

theorem perform_live (site : BenchSite) (live : LiveRun) (effect : RunEffect) :
    (LiveRun.perform (site, live) effect).2.run = live.run ∧
      (LiveRun.perform (site, live) effect).2.gateway = live.gateway.after effect := by
  cases effect with
  | request unit => cases unit <;> exact ⟨rfl, rfl⟩
  | _ => exact ⟨rfl, rfl⟩

/-! ## The invariant -/

/-- What the controller has been told in a phase. -/
def ToldIn (phase : RunPhase) (told : List ControlEvent) : Prop :=
  match phase with
  | .prepared => told = []
  | .active => ∃ start events, told = .start start :: events ∧ Controller.Undisturbed events
  | .brokenOff => ∃ start, told = [.start start]
  | .over _ => ∃ start events, told = .start start :: events ++ [.shutdown] ∧
      Controller.Undisturbed events

/-- The gateway stays open until the run leaves it, and it is left when nothing else remains to be
done. -/
def Tended (phase : RunPhase) (gateway : Gateway) (todo : List RunEffect) : Prop :=
  match phase with
  | .prepared => gateway = .fresh ∧ todo = []
  | .active => gateway.isOpen = true ∧ gateway.delivery = .working ∧ Stays todo
  | .brokenOff | .over _ =>
    (gateway.isOpen = true ∧ gateway.delivery = .working ∧ LeavesAtLast todo) ∨
      (gateway.isOpen = false ∧ todo = [] ∧
        (gateway.delivery = .working ∨ gateway.isFinished = true ∧ gateway.commands = []))

/-- A run of a program goes as it should: every command that the controller has sent is either
handed over, or waits in the gateway, or is still to be sent there, in this order. -/
structure Sound (program : Program) (s : Underway) : Prop where
  controller : s.live.run.controller = (Controller.new program).after s.told
  commands : s.handed ++ s.live.gateway.commands ++ commandsIn s.todo =
    (Controller.new program).sent s.told
  told : ToldIn s.live.run.phase s.told
  tended : Tended s.live.run.phase s.live.gateway s.todo

theorem sound_fresh (program : Program) (name : String) (settings : RunSettings) (openedAt : Int)
    (site : BenchSite) (logFile : OpenFile) :
    Sound program (.fresh site (.fresh (.prepare name program settings openedAt) logFile)) :=
  ⟨rfl, rfl, rfl, rfl, rfl⟩

/-! ## What a move keeps -/

theorem Tended.start {phase : RunPhase} {g : Gateway} {todo : List RunEffect}
    (h : Tended phase g todo) (hphase : phase ≠ .prepared) : g.start = g := by
  refine g.start_of_ne_ready ?_
  intro hready
  cases phase with
  | prepared => exact hphase rfl
  | active => simp [Tended, hready] at h
  | _ => simp [Tended, Gateway.isFinished, hready] at h

/-- While something remains to be done, the gateway is open. -/
theorem Tended.cons {phase : RunPhase} {g : Gateway} {effect : RunEffect} {rest : List RunEffect}
    (h : Tended phase g (effect :: rest)) :
    g.isOpen = true ∧ g.delivery = .working ∧ Tended phase (g.after effect) rest := by
  -- a run that is over: the effect is the one that leaves, or that one is still to come
  have hleft : g.isOpen = true → g.delivery = .working → LeavesAtLast (effect :: rest) →
      (g.after effect).isOpen = true ∧ (g.after effect).delivery = .working ∧ LeavesAtLast rest ∨
        (g.after effect).isOpen = false ∧ rest = [] ∧ (g.after effect).delivery = .working := by
    rintro hopen hworking ⟨front, last, heq, hfront, hlast⟩
    cases front with
    | nil =>
      simp only [List.nil_append, List.cons.injEq] at heq
      obtain ⟨rfl, rfl⟩ := heq
      rw [(g.after_of_leaves hlast).1]
      exact Or.inr ⟨rfl, rfl, hworking⟩
    | cons first front =>
      simp only [List.cons_append, List.cons.injEq] at heq
      obtain ⟨rfl, rfl⟩ := heq
      rw [Gateway.after_of_stays hopen hworking (hfront _ (by simp))]
      exact Or.inl ⟨hopen, hworking, front, last, rfl, fun e he => hfront e (by simp [he]), hlast⟩
  cases phase with
  | prepared => cases h.2
  | active =>
    obtain ⟨hopen, hworking, hstays⟩ := h
    refine ⟨hopen, hworking, ?_⟩
    rw [Gateway.after_of_stays hopen hworking (hstays _ (by simp))]
    exact ⟨hopen, hworking, fun e he => hstays e (by simp [he])⟩
  | _ =>
    rcases h with ⟨hopen, hworking, hleaves⟩ | ⟨_, hnil, _⟩
    · refine ⟨hopen, hworking, ?_⟩
      exact (hleft hopen hworking hleaves).imp id fun ⟨hclosed, hnil, hw⟩ => ⟨hclosed, hnil, .inl hw⟩
    · cases hnil

theorem Tended.deliver {phase : RunPhase} {g next : Gateway} {todo : List RunEffect}
    {command : Option Command} (h : Tended phase g todo) (hstep : g.step? = some (next, command)) :
    Tended phase next todo := by
  obtain ⟨hworking, ⟨first, rest, hcommands, rfl, _⟩ | ⟨hcommands, hclosed, rfl, _⟩⟩ :=
    Gateway.step_cases hstep
  · cases phase with
    | prepared => simp [h.1, Gateway.fresh] at hworking
    | active => exact h
    | _ =>
      rcases h with ⟨hopen, _, hleaves⟩ | ⟨hclosed, hnil, _⟩
      · exact Or.inl ⟨hopen, hworking, hleaves⟩
      · exact Or.inr ⟨hclosed, hnil, Or.inl hworking⟩
  · cases phase with
    | prepared => simp [h.1, Gateway.fresh] at hworking
    | active => simp [h.1] at hclosed
    | _ =>
      rcases h with ⟨hopen, _, _⟩ | ⟨_, hnil, _⟩
      · simp [hopen] at hclosed
      · exact Or.inr ⟨hclosed, hnil, Or.inr ⟨rfl, hcommands⟩⟩

theorem Sound.labour {program : Program} {s s' : Underway} (h : Sound program s)
    (hlabour : Labour s s') : Sound program s' := by
  cases hlabour with
  | @perform effect rest htodo =>
    obtain ⟨hrun, hgateway⟩ := perform_live s.site s.live effect
    have htended := h.tended
    rw [htodo] at htended
    obtain ⟨hopen, hworking, hnext⟩ := htended.cons
    refine ⟨?_, ?_, ?_, ?_⟩ <;> simp only [Underway.performs, hrun, hgateway]
    · exact h.controller
    · rw [Gateway.after_commands effect hopen hworking, ← h.commands, htodo, commandsIn_cons]
      simp
    · exact h.told
    · exact hnext
  | @deliver gateway command hnext =>
    refine ⟨h.controller, ?_, h.told, h.tended.deliver hnext⟩
    refine Eq.trans ?_ h.commands
    obtain ⟨_, ⟨first, rest, hcommands, rfl, rfl⟩ | ⟨hcommands, _, rfl, rfl⟩⟩ :=
      Gateway.step_cases hnext
    · simp [Underway.delivers, hcommands]
    · simp [Underway.delivers, hcommands]

theorem ToldIn.course {run next : Run} {effects : List RunEffect} {past told : List ControlEvent}
    (h : ToldIn run.phase past) (hcourse : Run.Course run next effects told) :
    ToldIn next.phase (past ++ told) := by
  cases hcourse with
  | ignored same =>
    rw [same, List.append_nil]
    exact h
  | begun now before after =>
    rw [before] at h
    rw [after]
    exact ⟨now, [], by rw [show past = [] from h]; rfl, by simp [Controller.Undisturbed]⟩
  | brokeOff now before after =>
    rw [before] at h
    rw [after]
    exact ⟨now, by rw [show past = [] from h]; rfl⟩
  | wentOn event before after inner =>
    rw [before] at h
    obtain ⟨start, events, rfl, hevents⟩ := h
    rw [after]
    exact ⟨start, events ++ [event], rfl, Controller.undisturbed_append.mpr ⟨hevents, inner⟩⟩
  | ended more state before after inner =>
    rw [before] at h
    obtain ⟨start, events, rfl, hevents⟩ := h
    rw [after]
    exact ⟨start, events ++ more, by simp, Controller.undisturbed_append.mpr ⟨hevents, inner⟩⟩

/-- The first event starts the delivery, and no other one touches the gateway. -/
theorem gateway_of_hears {s : Underway} (event : RunEvent) (now : Int) (sink : SinkAnswers)
    (h : Tended s.live.run.phase s.live.gateway s.todo) :
    (s.hears event now sink).live.gateway =
      if s.live.run.phase = .prepared ∧ s.live.run.told event now ≠ [] then s.live.gateway.start
      else s.live.gateway := by
  simp only [Underway.hears]
  by_cases hphase : s.live.run.phase = .prepared
  · simp [hphase, Run.told_of_prepared event now hphase]
  · rw [h.start hphase, ite_self, ite_self]

theorem Tended.course {run next : Run} {effects : List RunEffect} {told : List ControlEvent}
    {g : Gateway} (h : Tended run.phase g []) (hcourse : Run.Course run next effects told) :
    Tended next.phase (if run.phase = .prepared ∧ told ≠ [] then g.start else g) effects := by
  cases hcourse with
  | ignored same nothing =>
    rw [if_neg (by simp), same, nothing]
    exact h
  | begun now before after stays =>
    rw [before] at h
    rw [if_pos ⟨before, by simp⟩, after, h.1]
    exact ⟨rfl, rfl, stays⟩
  | brokeOff now before after leaves =>
    rw [before] at h
    rw [if_pos ⟨before, by simp⟩, after, h.1]
    exact Or.inl ⟨rfl, rfl, leaves⟩
  | wentOn event before after inner stays =>
    rw [before] at h
    rw [if_neg (by simp [before]), after]
    exact ⟨h.1, h.2.1, stays⟩
  | ended events state before after inner leaves =>
    rw [before] at h
    rw [if_neg (by simp [before]), after]
    exact Or.inl ⟨h.1, h.2.1, leaves⟩

theorem Gateway.start_commands (g : Gateway) : g.start.commands = g.commands := by
  unfold start
  split <;> rfl

theorem Sound.event {program : Program} {s : Underway} (h : Sound program s) (event : RunEvent)
    (now : Int) (sink : SinkAnswers) (idle : s.todo = []) :
    Sound program (s.hears event now sink) := by
  obtain ⟨⟨hcontroller, hcommands⟩, hcourse⟩ := s.live.run.answers_handle event now sink
  have hqueue : (s.hears event now sink).live.gateway.commands = s.live.gateway.commands := by
    simp only [Underway.hears]
    split
    · exact s.live.gateway.start_commands
    · rfl
  refine ⟨?_, ?_, h.told.course hcourse, ?_⟩
  · rw [Underway.hears, hcontroller, h.controller, ← Controller.after_append]
  · -- nothing was left to be done, so the new commands come right behind the queue
    rw [hqueue, Underway.hears, hcommands, h.controller, Controller.sent_append, ← h.commands, idle]
    simp
  · rw [gateway_of_hears event now sink h.tended]
    exact Tended.course (idle ▸ h.tended) hcourse

theorem Sound.move {program : Program} {s s' : Underway} (h : Sound program s) (hmove : Move s s') :
    Sound program s' := by
  cases hmove with
  | labour hlabour => exact h.labour hlabour
  | event event now sink idle => exact h.event event now sink idle
  | elsewhere site live run gateway =>
    refine ⟨?_, ?_, ?_, ?_⟩
    · exact (congrArg Run.controller run).trans h.controller
    · exact gateway ▸ h.commands
    · exact run ▸ h.told
    · exact run ▸ gateway ▸ h.tended

/-- A state that a run of this program can come to. -/
def ReachedBy (program : Program) (s : Underway) : Prop :=
  ∃ name settings openedAt site logFile,
    ReflTransGen Move (.fresh site (.fresh (.prepare name program settings openedAt) logFile)) s

theorem ReachedBy.sound {program : Program} {s : Underway} (h : ReachedBy program s) :
    Sound program s := by
  obtain ⟨name, settings, openedAt, site, logFile, hmoves⟩ := h
  induction hmoves with
  | refl => exact sound_fresh program name settings openedAt site logFile
  | tail _ hmove ih => exact ih.move hmove

/-- A run that is over tells its controller of nothing more. -/
theorem Move.stays_over {s s' : Underway} {state : RunState} (hmove : Move s s')
    (h : s.live.run.phase = .over state) : s'.live.run.phase = .over state ∧ s'.told = s.told := by
  cases hmove with
  | labour hlabour =>
    cases hlabour with
    | @perform effect rest htodo =>
      rw [Underway.performs, (perform_live s.site s.live effect).1]
      exact ⟨h, rfl⟩
    | deliver hnext => exact ⟨h, rfl⟩
  | event event now sink idle =>
    simp [Underway.hears, Run.handle, Run.told, h]
  | elsewhere site live run gateway => exact ⟨run ▸ h, rfl⟩

theorem over_of_moves {s s' : Underway} {state : RunState} (hmoves : ReflTransGen Move s s')
    (h : s.live.run.phase = .over state) : s'.live.run.phase = .over state ∧ s'.told = s.told := by
  induction hmoves with
  | refl => exact ⟨h, rfl⟩
  | tail _ hmove ih =>
    obtain ⟨hphase, htold⟩ := ih
    obtain ⟨hover, hsame⟩ := hmove.stays_over hphase
    exact ⟨hover, hsame.trans htold⟩

end DryKiln
