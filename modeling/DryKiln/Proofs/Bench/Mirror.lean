-- The runs of a bench as interplays. Whatever happens on a bench, each of its runs and the two pollers
-- of the run make moves of an interplay, one after the other; so nothing is lost on a bench either.
import DryKiln.Proofs.Bench.Course
import DryKiln.Proofs.Run.Interplay

namespace DryKiln

/-- A step of a poller is one that it takes for some unit. -/
theorem Poller.Worked.exists_step {α : Type} {sensor : Sensor α} {now : Nat} {p q : Poller α}
    (h : p.Worked sensor now q) : ∃ other begun reads, p.step? other now begun = some (q, reads) := by
  cases h with
  | begins number rest free asked => exact ⟨sensor, number, 1, by simp [step?, free, asked]⟩
  | stops rest free asked => exact ⟨sensor, 0, 0, by simp [step?, free, asked]⟩
  | ends free nothing left => exact ⟨sensor, 0, 0, by simp [step?, free, nothing, left]⟩
  | reads number ends reading busy due =>
    exact ⟨⟨0, fun _ => .ok reading⟩, 0, 0, by simp [step?, busy, due]⟩
  | fails number ends busy due =>
    exact ⟨⟨0, fun _ => .error (.transport "")⟩, 0, 0, by simp [step?, busy, due]⟩
  | drops reading full left => exact ⟨sensor, 0, 0, by simp [step?, full, left]⟩
  | hands reading full heard room => exact ⟨sensor, 0, 0, by simp [step?, full, heard, room]⟩

namespace Interplay

/-! ## Chores -/

/-- A poller after several chores of a run. -/
def afterChores (unit : SensorUnit) {α : Type} (p : Poller α)
    (chores : List (SensorUnit × Feed.Task)) : Poller α :=
  chores.foldl (fun p chore => if chore.1 = unit then Feed.Task.act p chore.2 else p) p

theorem afterChores_append (unit : SensorUnit) {α : Type} (p : Poller α)
    (first second : List (SensorUnit × Feed.Task)) :
    afterChores unit p (first ++ second) = afterChores unit (afterChores unit p first) second :=
  List.foldl_append

/-- A run does its chores one after the other. -/
theorem reaches_idle (state : Interplay) : ∃ next, Reaches state next ∧ next.run = state.run ∧
    next.chores = [] ∧
    ∀ unit, (next.feed unit).poller = afterChores unit (state.feed unit).poller state.chores := by
  generalize hchores : state.chores = chores
  induction chores generalizing state with
  | nil => exact ⟨state, .refl, rfl, hchores, fun _ => rfl⟩
  | cons chore rest ih =>
    obtain ⟨unit, task⟩ := chore
    have hmove := Move.does unit task rest hchores
    obtain ⟨next, hreaches, hrun, hidle, hpollers⟩ :=
      ih ({ state with chores := rest }.setFeed unit ((state.feed unit).perform task)) rfl
    refine ⟨next, .head hmove hreaches, hrun, hidle, fun other => ?_⟩
    rw [hpollers, afterChores, afterChores, List.foldl_cons]
    by_cases hother : other = unit
    · subst hother
      rw [setFeed_self, if_pos rfl]
      rfl
    · rw [setFeed_of_ne _ hother, if_neg fun h => hother h.symm]

/-- A bench does all the chores of an effect at once. -/
theorem pollers_perform (pair : BenchSite × LiveRun) (effect : RunEffect) :
    (LiveRun.perform pair effect).2.temperatures =
        afterChores .temperature pair.2.temperatures effect.chores ∧
      (LiveRun.perform pair effect).2.power = afterChores .power pair.2.power effect.chores := by
  cases effect with
  | request unit => cases unit <;> exact ⟨rfl, rfl⟩
  | _ => exact ⟨rfl, rfl⟩

theorem pollers_performAll (pair : BenchSite × LiveRun) (effects : List RunEffect) :
    (effects.foldl LiveRun.perform pair).2.temperatures =
        afterChores .temperature pair.2.temperatures (effects.flatMap RunEffect.chores) ∧
      (effects.foldl LiveRun.perform pair).2.power =
        afterChores .power pair.2.power (effects.flatMap RunEffect.chores) := by
  induction effects generalizing pair with
  | nil => exact ⟨rfl, rfl⟩
  | cons effect rest ih =>
    obtain ⟨htemperatures, hpower⟩ := ih (LiveRun.perform pair effect)
    obtain ⟨hfirst, hsecond⟩ := pollers_perform pair effect
    rw [List.foldl_cons, List.flatMap_cons, afterChores_append, afterChores_append, ← hfirst,
      ← hsecond]
    exact ⟨htemperatures, hpower⟩

/-! ## One run of a bench -/

/-- A run of a bench, as an interplay between two events. -/
structure Mirrors (state : Interplay) (live : LiveRun) : Prop where
  run : state.run = live.run
  idle : state.chores = []
  temperatures : (state.feed .temperature).poller = live.temperatures
  power : (state.feed .power).poller = live.power

theorem mirrors_fresh (run : Run) (logFile : OpenFile) : (begin run).Mirrors (.fresh run logFile) :=
  ⟨rfl, rfl, rfl, rfl⟩

variable {state : Interplay} {live moved : LiveRun} {site siteNext : BenchSite}

/-- A run that has heard an event does at once what it wants done. -/
theorem Mirrors.take (h : state.Mirrors live) (site : BenchSite) (event : RunEvent) :
    ∃ next, Reaches (state.hear event site.clock (LiveRun.sink site live)) next ∧
      next.Mirrors (LiveRun.take site live event).2 := by
  obtain ⟨hrun, -, htemperatures, hpower⟩ := h
  obtain ⟨next, hreaches, hnext, hidle, hpollers⟩ :=
    (state.hear event site.clock (LiveRun.sink site live)).reaches_idle
  obtain ⟨hwarm, hdark⟩ := pollers_performAll
    (site, { live with run := (live.run.handle event site.clock (LiveRun.sink site live)).1 })
    (live.run.handle event site.clock (LiveRun.sink site live)).2
  refine ⟨next, hreaches, ?_, hidle, ?_, ?_⟩
  · rw [hnext, LiveRun.take_run, ← hrun]
    rfl
  · rw [hpollers, hear_feed, htemperatures, Interplay.hear, hrun, ← hwarm]
    rfl
  · rw [hpollers, hear_feed, hpower, Interplay.hear, hrun, ← hdark]
    rfl

theorem Mirrors.hears (h : state.Mirrors live) {event : RunEvent} {next : LiveRun}
    (hdue : live.Due site.now event next) :
    ∃ later, Reaches state later ∧ later.Mirrors (LiveRun.take site next event).2 := by
  obtain ⟨hrun, hidle, htemperatures, hpower⟩ := h
  cases hdue with
  | begin phase =>
    have hsame : state.Mirrors { live with
        gateway := live.gateway.start, nextTick := live.tickAfter site.now } :=
      ⟨hrun, hidle, htemperatures, hpower⟩
    obtain ⟨later, hreaches, hmirrors⟩ := hsame.take site .begin
    exact ⟨later, .head (.hears _ _ _ hidle rfl) hreaches, hmirrors⟩
  | tick phase due =>
    have hsame : state.Mirrors { live with nextTick := live.tickAfter site.now } :=
      ⟨hrun, hidle, htemperatures, hpower⟩
    obtain ⟨later, hreaches, hmirrors⟩ := hsame.take site .tick
    exact ⟨later, .head (.hears _ _ _ hidle rfl) hreaches, hmirrors⟩
  | temperatures reading rest phase there =>
    have hfound := Poller.receive_of_responses (htemperatures.symm ▸ there)
    have hmove := Move.takes .temperature reading _ site.clock (LiveRun.sink site live) hidle
      (hrun.symm ▸ phase) hfound
    have hsame : (state.setFeed .temperature { state.feed .temperature with
        poller := { (state.feed .temperature).poller with responses := rest } }).Mirrors
        { live with temperatures := { live.temperatures with responses := rest } } :=
      ⟨hrun, hidle, by rw [setFeed_self, htemperatures], hpower⟩
    obtain ⟨later, hreaches, hmirrors⟩ := hsame.take site (.temperatures reading)
    exact ⟨later, .head hmove hreaches, hmirrors⟩
  | power reading rest phase there =>
    have hfound := Poller.receive_of_responses (hpower.symm ▸ there)
    have hmove := Move.takes .power reading _ site.clock (LiveRun.sink site live) hidle
      (hrun.symm ▸ phase) hfound
    have hsame : (state.setFeed .power { state.feed .power with
        poller := { (state.feed .power).poller with responses := rest } }).Mirrors
        { live with power := { live.power with responses := rest } } :=
      ⟨hrun, hidle, htemperatures, by rw [setFeed_self, hpower]⟩
    obtain ⟨later, hreaches, hmirrors⟩ := hsame.take site (.power reading)
    exact ⟨later, .head hmove hreaches, hmirrors⟩
  | stop phase asked =>
    obtain ⟨later, hreaches, hmirrors⟩ :=
      Mirrors.take ⟨hrun, hidle, htemperatures, hpower⟩ site .stop
    exact ⟨later, .head (.hears _ _ _ hidle rfl) hreaches, hmirrors⟩

/-- A step of a run on a bench consists of moves. -/
theorem Mirrors.step (h : state.Mirrors live) (hstep : live.Stepped site siteNext moved) :
    ∃ next, Reaches state next ∧ next.Mirrors moved := by
  cases hstep with
  | hears due => exact h.hears due
  | readsTemperatures reads worked =>
    rw [← h.temperatures] at worked
    obtain ⟨sensor, begun, count, hstep⟩ := worked.exists_step
    refine ⟨_, .single (.works .temperature sensor _ _ _ _ hstep), h.run, h.idle, ?_, h.power⟩
    rw [setFeed_self]
    rfl
  | readsPower reads worked =>
    rw [← h.power] at worked
    obtain ⟨sensor, begun, count, hstep⟩ := worked.exists_step
    refine ⟨_, .single (.works .power sensor _ _ _ _ hstep), h.run, h.idle, h.temperatures, ?_⟩
    rw [setFeed_self]
    rfl
  | delivers delivered => exact ⟨state, .refl, h.run, h.idle, h.temperatures, h.power⟩

end Interplay

/-! ## A bench -/

namespace Bench

open Interplay (Reaches Mirrors Lossless)

variable {bench next : Bench} {i : Nat} {live : LiveRun} {state : Interplay}

theorem Turn.mirrored (h : bench.Turn next) (hlive : bench.run? i = some live)
    (hmirrors : state.Mirrors live) :
    ∃ after later, next.run? i = some after ∧ Reaches state later ∧ later.Mirrors after := by
  cases h with
  | work moved =>
    rcases moved.run?_cases hlive with hsame | ⟨after, hafter, hstep⟩
    · exact ⟨live, state, hsame, .refl, hmirrors⟩
    · obtain ⟨later, hreaches, hlater⟩ := hmirrors.step hstep
      exact ⟨after, later, hafter, hreaches, hlater⟩
  | elapse now later idle => exact ⟨live, state, hlive, .refl, hmirrors⟩
  | outside site now => exact ⟨live, state, hlive, .refl, hmirrors⟩
  | asked j =>
    refine ⟨_, state, by rw [run?_askToStop, hlive]; rfl, .refl, ?_⟩
    split
    · exact ⟨hmirrors.run, hmirrors.idle, hmirrors.temperatures, hmirrors.power⟩
    · exact hmirrors

/-- Whatever has happened on a bench since a run was started there, nothing is lost between the run
and its pollers. -/
theorem nothing_is_lost_on_a_bench (name : String) (program : Program) (settings : RunSettings)
    (openedAt : Int) (logFile : OpenFile)
    (hlive : bench.run? i = some (.fresh (.prepare name program settings openedAt) logFile))
    (hlater : bench.Later next) :
    ∃ after state, next.run? i = some after ∧ state.Mirrors after ∧
      ∀ unit, Lossless program state unit := by
  have hfrom : ∃ after state, next.run? i = some after ∧
      Reaches (.begin (.prepare name program settings openedAt)) state ∧ state.Mirrors after := by
    induction hlater with
    | refl => exact ⟨_, _, hlive, .refl, Interplay.mirrors_fresh _ logFile⟩
    | tail _ turn ih =>
      obtain ⟨after, state, hafter, hreaches, hmirrors⟩ := ih
      obtain ⟨last, later, hlast, hmore, hmirrored⟩ := turn.mirrored hafter hmirrors
      exact ⟨last, later, hlast, hreaches.trans hmore, hmirrored⟩
  obtain ⟨after, state, hafter, hreaches, hmirrors⟩ := hfrom
  have hgood := (Interplay.good_begin name program settings openedAt).reaches hreaches
  exact ⟨after, state, hafter, hmirrors, hgood.lossless⟩

end Bench
end DryKiln
