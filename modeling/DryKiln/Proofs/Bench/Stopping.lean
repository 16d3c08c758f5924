-- Runs that are stopped. A run that has been asked to stop leaves its units at the same instant; then
-- only reads can keep it from its end, and they have a deadline that no step moves. Whoever waits
-- long enough sees it finished.
import DryKiln.Proofs.Bench.Course

namespace DryKiln

/-! ## Pollers -/

namespace Poller

variable {α : Type} {sensor : Sensor α} {now : Nat} {p q : Poller α}

/-- The instant by which a poller that has been left is finished for sure, if a read takes so
long. -/
def deadline (delay now : Nat) (p : Poller α) : Nat :=
  match p.activity with
  | .finished => 0
  | .reading _ ends => max now ends + delay * p.requests.length
  | .waiting | .holding _ => now + delay * p.requests.length

/-- A poller that works does not put off its deadline. -/
theorem Worked.deadline_le (h : Worked sensor now p q) :
    q.deadline sensor.delay now ≤ p.deadline sensor.delay now := by
  cases h with
  | begins number rest free asked =>
    simp only [deadline, free, asked, List.length_cons, Nat.mul_succ]
    omega
  | reads number ends reading busy due =>
    simp only [deadline, busy]
    omega
  | fails number ends busy due =>
    simp only [deadline, busy]
    omega
  | hands reading full heard room => simp [deadline, full]
  | _ => simp [deadline]

theorem deadline_of_isFinished (delay : Nat) (h : p.isFinished = true) :
    p.deadline delay now = 0 := by
  unfold isFinished at h
  split at h
  · rename_i hdone
    simp [deadline, hdone]
  · cases h

theorem deadline_of_nextEnd {ends : Nat} (delay now : Nat) (h : p.nextEnd = some ends) :
    p.deadline delay now = max now ends + delay * p.requests.length := by
  unfold nextEnd at h
  split at h
  · rename_i number last hbusy
    cases h
    simp [deadline, hbusy]
  · cases h

/-- A poller that has been left and reads does not put off its deadline while time passes, up to
the end of its read. -/
theorem Left.deadline_later_le (hp : p.Left) {begun later : Nat}
    (h : p.step? sensor now begun = none) (delay : Nat)
    (hlater : ∀ ends, p.nextEnd = some ends → later ≤ ends) :
    p.deadline delay later ≤ p.deadline delay now := by
  rcases hp.finished_or_reads h with hfinished | ⟨ends, hends, -⟩
  · rw [deadline_of_isFinished delay hfinished]
    exact Nat.zero_le _
  · have hbefore := hlater ends hends
    rw [deadline_of_nextEnd delay later hends, deadline_of_nextEnd delay now hends]
    omega

theorem le_deadline {ends : Nat} (delay : Nat) (h : p.nextEnd = some ends) :
    ends ≤ p.deadline delay now := by
  rw [deadline_of_nextEnd delay now h]
  omega

end Poller

/-! ## One run -/

namespace LiveRun

variable {site siteNext : BenchSite} {live moved : LiveRun} {last : Nat}

/-- The run is over, and its pollers are finished at some instant at the latest. -/
structure DoneBy (site : BenchSite) (live : LiveRun) (last : Nat) : Prop where
  phase : ∃ state, live.run.phase = .over state
  temperatures : live.temperatures.deadline site.kiln.temperatureDelay site.now ≤ last
  power : live.power.deadline site.kiln.powerDelay site.now ≤ last

theorem Stepped.doneBy (h : live.Stepped site siteNext moved) (hdone : live.DoneBy site last) :
    moved.DoneBy siteNext last := by
  obtain ⟨⟨state, hover⟩, htemperatures, hpower⟩ := hdone
  have hnow := h.now_eq
  have hdelay := h.delay_eq
  cases h with
  | hears due => cases due <;> simp_all
  | readsTemperatures reads worked =>
    exact ⟨⟨state, hover⟩, Nat.le_trans worked.deadline_le htemperatures, hpower⟩
  | readsPower reads worked =>
    exact ⟨⟨state, hover⟩, htemperatures, Nat.le_trans worked.deadline_le hpower⟩
  | delivers delivered =>
    refine ⟨⟨state, hover⟩, ?_, ?_⟩
    · rw [hdelay.1, hnow]
      exact htemperatures
    · rw [hdelay.2, hnow]
      exact hpower

/-- A run that is over and has to wait is finished, or one of its reads has to end. -/
theorem Stuck.finished_or_reads (h : live.Stuck site) (hfit : live.Fit)
    (hdone : live.DoneBy site last) :
    live.isFinished = true ∨ ∃ ends ∈ live.instants, site.now < ends ∧ ends ≤ last := by
  obtain ⟨⟨state, hover⟩, htemperatures, hpower⟩ := hdone
  obtain ⟨hleftTemperatures, hleftPower⟩ := hfit.left state hover
  rcases hleftTemperatures.finished_or_reads h.temperatures with hcold | ⟨ends, hends, hlater⟩
  · rcases hleftPower.finished_or_reads h.power with hdark | ⟨ends, hends, hlater⟩
    · left
      have hclosed : live.gateway.isFinished = true := by
        have htended := hfit.tended
        rw [hover] at htended
        rcases htended with ⟨-, -, front, final, hnil, -⟩ | ⟨hclosed, -, hworking | ⟨hfinished, -⟩⟩
        · cases front <;> cases hnil
        · have hstuck := h.gateway
          unfold Gateway.step? at hstuck
          rw [if_pos hworking] at hstuck
          split at hstuck
          · cases hstuck
          · simp [hclosed] at hstuck
        · exact hfinished
      simp [isFinished, ending?, hover, hcold, hdark, hclosed, Run.outcome?]
    · have hmem : ends ∈ live.instants := by simp [instants, hends]
      exact .inr ⟨ends, hmem, hlater, Nat.le_trans (Poller.le_deadline _ hends) hpower⟩
  · have hmem : ends ∈ live.instants := by simp [instants, hends]
    exact .inr ⟨ends, hmem, hlater, Nat.le_trans (Poller.le_deadline _ hends) htemperatures⟩

/-- A jump to an instant before the end of every read puts nothing off. -/
theorem Stuck.doneBy_later (h : live.Stuck site) (hfit : live.Fit) (hdone : live.DoneBy site last)
    {now : Nat} (hnow : ∀ ends ∈ live.instants, now ≤ ends) : live.DoneBy { site with now } last := by
  obtain ⟨⟨state, hover⟩, htemperatures, hpower⟩ := hdone
  obtain ⟨hleftTemperatures, hleftPower⟩ := hfit.left state hover
  refine ⟨⟨state, hover⟩, Nat.le_trans ?_ htemperatures, Nat.le_trans ?_ hpower⟩
  · apply hleftTemperatures.deadline_later_le h.temperatures
    exact fun ends hends => hnow ends (by simp [instants, hends])
  · apply hleftPower.deadline_later_le h.power
    exact fun ends hends => hnow ends (by simp [instants, hends])

/-- A run that has been asked to stop and has nothing to do at once is over or has broken off. -/
theorem Waits.over_of_asked {now : Nat} (h : live.Waits now) (hasked : live.stopAsked = true) :
    live.run.phase = .brokenOff ∨ ∃ state, live.run.phase = .over state := by
  cases hphase : live.run.phase with
  | prepared => exact absurd hphase h.begun
  | active => simp [h.unasked hphase] at hasked
  | brokenOff => exact .inl rfl
  | _ => exact .inr ⟨_, rfl⟩

end LiveRun

/-! ## A bench -/

namespace Bench

variable {bench next : Bench} {i last : Nat}

/-- The run at a position is over, and its pollers are finished at some instant at the latest. -/
def DoneBy (bench : Bench) (i last : Nat) : Prop :=
  ∃ live, bench.run? i = some live ∧ live.DoneBy bench.site last

theorem Moved.doneBy (h : bench.Moved next) (hdone : bench.DoneBy i last) : next.DoneBy i last := by
  obtain ⟨live, hlive, hdone⟩ := hdone
  rcases h.run?_cases hlive with hsame | ⟨moved, hmoved, hstepped⟩
  · -- another run's step takes no time, and does not make the reads longer
    obtain ⟨hover, htemperatures, hpower⟩ := hdone
    refine ⟨live, hsame, hover, ?_, ?_⟩
    · rw [h.delay_eq.1, h.now_eq]
      exact htemperatures
    · rw [h.delay_eq.2, h.now_eq]
      exact hpower
  · exact ⟨moved, hmoved, hstepped.doneBy hdone⟩

theorem DoneBy.steps (hdone : bench.DoneBy i last) (count : Nat) :
    (bench.steps count).DoneBy i last := by
  induction count generalizing bench with
  | zero => exact hdone
  | succ count ih =>
    unfold Bench.steps
    split
    · rename_i next hstep
      exact ih ((moved_of_step? hstep).doneBy hdone)
    · exact hdone

/-- When all have to wait, a run that is over is finished, or the next instant comes before the one
by which it is. -/
theorem Idle.finished_or_later (hidle : bench.Idle) (hfit : bench.Fit) (hdone : bench.DoneBy i last) :
    bench.isFinished i = true ∨ ∃ now, bench.nextInstant? = some now ∧ bench.site.now < now ∧
      now ≤ last ∧ (bench.at_ now).DoneBy i last := by
  obtain ⟨live, hlive, hdone⟩ := hdone
  have hmem := List.mem_of_getElem? hlive
  have hstuck := LiveRun.stuck_of_step? (hidle live hmem)
  have hfitLive := (hfit live hmem).1
  rcases hstuck.finished_or_reads hfitLive hdone with hfinished | ⟨ends, hends, -, hlast⟩
  · left
    simp [isFinished, hlive, hfinished]
  · right
    have hall : ∀ instant ∈ live.instants, instant ∈ bench.runs.flatMap LiveRun.instants :=
      fun instant hinstant => List.mem_flatMap.mpr ⟨live, hmem, hinstant⟩
    obtain ⟨now, hnow⟩ := Option.isSome_iff_exists.mp (List.isSome_min?_of_mem (hall ends hends))
    have hleast := (List.min?_eq_some_iff.mp hnow).2
    have hfirst : ∀ instant ∈ live.instants, now ≤ instant :=
      fun instant hinstant => hleast instant (hall instant hinstant)
    exact ⟨now, hnow, hidle.lt_of_nextInstant? hnow, Nat.le_trans (hfirst ends hends) hlast,
      live, hlive, hstuck.doneBy_later hfitLive hdone hfirst⟩

/-- The instants go by one after the other, so a run that is over after the first is finished before
the last. -/
theorem Fit.isFinished_awaitTo (hfit : bench.Fit) {instant jumps : Nat}
    (hdone : bench.settle.DoneBy i last) (hnow : bench.site.now ≤ last)
    (hjumps : last < bench.site.now + jumps) (hinstant : last < instant) :
    (bench.awaitTo i instant jumps).isFinished i = true := by
  induction jumps generalizing bench with
  | zero => omega
  | succ jumps ih =>
    have hfitSettled := bench.later_settle.fit hfit
    unfold awaitTo
    dsimp only
    rcases hfit.idle_settle.finished_or_later hfitSettled hdone with
      hfinished | ⟨now, hnext, hlater, hlast, hdoneNext⟩
    · rw [if_pos hfinished]
      exact hfinished
    · split
      · assumption
      · rw [bench.now_settle] at hlater
        have hbefore : now < instant := by omega
        have hfitNext : (bench.settle.at_ now).Fit := hfitSettled.at_ hfit.idle_settle now
        simp only [hnext, if_pos hbefore]
        refine ih hfitNext (hdoneNext.steps _) hlast ?_
        show last < now + jumps
        omega

theorem awaitTo_of_isFinished (instant jumps : Nat) (h : bench.settle.isFinished i = true) :
    bench.awaitTo i instant (jumps + 1) = bench.settle := by
  unfold awaitTo
  exact if_pos h

/-- A run that is stopped is finished if the one who stops it waits long enough. -/
theorem Fit.isFinished_stop (hfit : bench.Fit) {live : LiveRun} (hlive : bench.run? i = some live) :
    ∃ enough, ∀ limit, enough ≤ limit → (bench.stop i limit).isFinished i = true := by
  let asked := bench.askToStop i
  have hfitAsked : asked.Fit := hfit.askToStop i
  have hasked : asked.run? i = some { live with stopAsked := true } := by
    simp [asked, run?_askToStop, hlive]
  obtain ⟨after, hafter, hcontinues⟩ := asked.later_settle.continues.run i _ hasked
  have hstuck := LiveRun.stuck_of_step? (hfitAsked.idle_settle after (List.mem_of_getElem? hafter))
  rcases hstuck.waits.over_of_asked (hcontinues.asked rfl) with hbroken | hover
  · have hfinished : asked.settle.isFinished i = true := by
      simp [isFinished, hafter, LiveRun.isFinished, LiveRun.ending_of_brokenOff hbroken]
    refine ⟨0, fun limit _ => ?_⟩
    unfold stop await
    rw [awaitTo_of_isFinished _ _ hfinished]
    exact hfinished
  · let site := asked.settle.site
    let last := max site.now (max
      (after.temperatures.deadline site.kiln.temperatureDelay site.now)
      (after.power.deadline site.kiln.powerDelay site.now))
    have hnow : site.now = asked.site.now := asked.now_settle
    have hdone : asked.settle.DoneBy i last := by
      refine ⟨after, hafter, hover, ?_, ?_⟩
      · exact Nat.le_trans (Nat.le_max_left _ _) (Nat.le_max_right _ _)
      · exact Nat.le_trans (Nat.le_max_right _ _) (Nat.le_max_right _ _)
    have hsince : asked.site.now ≤ last := hnow ▸ Nat.le_max_left _ _
    refine ⟨last + 1, fun limit hlimit => ?_⟩
    exact hfitAsked.isFinished_awaitTo hdone hsince (by omega) (by omega)

end Bench
end DryKiln
