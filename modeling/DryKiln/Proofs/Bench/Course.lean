-- The course of things on a bench. Runs work in any order, time passes, units, files and the clock
-- change, and runs are asked to stop; all that a bench does comes down to this, and through all of it
-- a run stays the run that it is, and one that has ended has ended for good.
import DryKiln.Proofs.Bench.Settling
import DryKiln.Proofs.Run.Record

namespace DryKiln

open Relation (ReflTransGen)

/-! ## One run -/

namespace LiveRun

variable {live middle next : LiveRun} {ending : Ending}

/-- How a run can have ended: it has broken off, or it is over and all its work has been done. -/
theorem ending_cases (h : live.ending? = some ending) :
    (live.run.phase = .brokenOff ∧ ending = .brokenOff) ∨
      ∃ outcome, ending = .outcome outcome ∧ live.run.outcome? = some outcome ∧
        live.temperatures.isFinished = true ∧ live.power.isFinished = true ∧
        live.gateway.isFinished = true := by
  unfold ending? at h
  split at h
  · rename_i hbroken
    exact .inl ⟨hbroken, (Option.some.inj h).symm⟩
  · split at h
    · rename_i hfinished
      obtain ⟨hpollers, hgateway⟩ := Bool.and_eq_true_iff.mp hfinished
      obtain ⟨htemperatures, hpower⟩ := Bool.and_eq_true_iff.mp hpollers
      obtain ⟨outcome, houtcome, heq⟩ := Option.map_eq_some_iff.mp h
      exact .inr ⟨outcome, heq.symm, houtcome, htemperatures, hpower, hgateway⟩
    · cases h

theorem ending_of_brokenOff (h : live.run.phase = .brokenOff) : live.ending? = some .brokenOff := by
  simp [ending?, h]

/-- A finished poller does not work. -/
theorem not_worked_of_isFinished {α : Type} {sensor : Sensor α} {now : Nat} {p q : Poller α}
    (hfinished : p.isFinished = true) : ¬ p.Worked sensor now q := by
  intro hworked
  cases hworked <;> simp_all [Poller.isFinished]

/-- The same run later on. -/
structure Continues (live next : LiveRun) : Prop where
  identity : next.run.identity = live.run.identity
  asked : live.stopAsked = true → next.stopAsked = true
  ended : ∀ ending, live.ending? = some ending → next.ending? = some ending

theorem Continues.refl (live : LiveRun) : live.Continues live := ⟨rfl, id, fun _ => id⟩

theorem Continues.trans (h₁ : live.Continues middle) (h₂ : middle.Continues next) :
    live.Continues next :=
  ⟨h₂.identity.trans h₁.identity, h₂.asked ∘ h₁.asked,
    fun ending h => h₂.ended ending (h₁.ended ending h)⟩

variable {site siteNext : BenchSite} {moved : LiveRun}

/-- A run that is over and done takes no step, and one that has broken off stays so. -/
theorem Stepped.ended (h : live.Stepped site siteNext moved) (hended : live.ending? = some ending) :
    moved.ending? = some ending := by
  rcases ending_cases hended with ⟨hbroken, rfl⟩ | ⟨outcome, -, hover, htemperatures, hpower, hgateway⟩
  · refine ending_of_brokenOff ?_
    cases h with
    | hears due => cases due <;> simp_all
    | _ => exact hbroken
  · exfalso
    have hphase := (Run.phase_of_outcome hover).1
    cases h with
    | hears due => cases due <;> simp_all
    | readsTemperatures reads worked => exact not_worked_of_isFinished htemperatures worked
    | readsPower reads worked => exact not_worked_of_isFinished hpower worked
    | delivers delivered =>
      have hworking := (Gateway.step_cases delivered).1
      simp [Gateway.isFinished, hworking] at hgateway

theorem Stepped.continues (h : live.Stepped site siteNext moved) : live.Continues moved := by
  refine ⟨?_, ?_, fun ending => h.ended⟩
  · cases h with
    | hears due => rw [take_run, Run.identity_handle, due.run_eq]
    | _ => rfl
  · cases h with
    | hears due =>
      rw [take_stopAsked]
      intro hasked
      cases due <;> exact hasked
    | _ => exact id

end LiveRun

/-! ## A bench -/

namespace Bench

variable {bench middle next : Bench}

/-- One turn of events. Any run that can take a step may be the one that does; time only passes when
all have to wait; and at any time the units, the files and the clock may change, and a run may be
asked to stop. -/
inductive Turn (bench : Bench) : Bench → Prop where
  | work {next : Bench} (moved : bench.Moved next) : Turn bench next
  | elapse (now : Nat) (later : bench.site.now ≤ now) (idle : bench.Idle) :
      Turn bench (bench.at_ now)
  | outside (site : BenchSite) (now : site.now = bench.site.now) : Turn bench { bench with site }
  | asked (i : Nat) : Turn bench (bench.askToStop i)

/-- What may have become of a bench. -/
def Later : Bench → Bench → Prop := ReflTransGen Turn

theorem Later.refl (bench : Bench) : bench.Later bench := ReflTransGen.refl

theorem Later.trans (h₁ : bench.Later middle) (h₂ : middle.Later next) : bench.Later next :=
  ReflTransGen.trans h₁ h₂

theorem Turn.later (h : bench.Turn next) : bench.Later next := ReflTransGen.single h

theorem later_outside (bench : Bench) (site : BenchSite) (now : site.now = bench.site.now) :
    bench.Later { bench with site } :=
  (Turn.outside site now).later

/-- The runs are the same, and in the same places. -/
structure Continues (bench next : Bench) : Prop where
  length : next.runs.length = bench.runs.length
  run : ∀ i live, bench.run? i = some live →
    ∃ after, next.run? i = some after ∧ live.Continues after

/-- What happens elsewhere makes no difference to the runs. -/
theorem continues_of_runs_eq (h : next.runs = bench.runs) : bench.Continues next := by
  refine ⟨congrArg List.length h, ?_⟩
  intro i live hlive
  refine ⟨live, ?_, .refl live⟩
  unfold run?
  rw [h]
  exact hlive

theorem Continues.refl (bench : Bench) : bench.Continues bench := continues_of_runs_eq rfl

theorem Continues.trans (h₁ : bench.Continues middle) (h₂ : middle.Continues next) :
    bench.Continues next := by
  refine ⟨h₂.length.trans h₁.length, ?_⟩
  intro i live hlive
  obtain ⟨after, hafter, hfirst⟩ := h₁.run i live hlive
  obtain ⟨last, hlast, hsecond⟩ := h₂.run i after hafter
  exact ⟨last, hlast, hfirst.trans hsecond⟩

/-- What a run has been before. -/
theorem Continues.back (h : bench.Continues next) {i : Nat} {after : LiveRun}
    (hafter : next.run? i = some after) :
    ∃ live, bench.run? i = some live ∧ live.Continues after := by
  obtain ⟨hi, -⟩ := List.getElem?_eq_some_iff.mp hafter
  rw [h.length] at hi
  have hlive : bench.run? i = some bench.runs[i] := List.getElem?_eq_getElem hi
  obtain ⟨same, hsame, hcontinues⟩ := h.run i _ hlive
  obtain rfl : same = after := Option.some.inj (hsame.symm.trans hafter)
  exact ⟨_, hlive, hcontinues⟩

/-- When one run takes a step, a run in some place is the same as before, or it is that one. -/
theorem Moved.run?_cases (h : bench.Moved next) {i : Nat} {live : LiveRun}
    (hlive : bench.run? i = some live) :
    next.run? i = some live ∨
      ∃ moved, next.run? i = some moved ∧ live.Stepped bench.site next.site moved := by
  cases h with
  | @run site siteNext before after stepping moved step =>
    have hstepped := LiveRun.stepped_of_step? step
    unfold run? at hlive ⊢
    rcases Nat.lt_trichotomy i before.length with hi | rfl | hi
    · rw [List.getElem?_append_left hi] at hlive ⊢
      exact .inl hlive
    · simp only [List.getElem?_append_right (Nat.le_refl _), Nat.sub_self,
        List.getElem?_cons_zero] at hlive ⊢
      exact .inr ⟨moved, rfl, Option.some.inj hlive ▸ hstepped⟩
    · obtain ⟨k, rfl⟩ := Nat.exists_eq_add_of_lt hi
      have hsplit : before.length + k + 1 - before.length = k + 1 := by omega
      rw [List.getElem?_append_right (by omega), hsplit, List.getElem?_cons_succ] at hlive ⊢
      exact .inl hlive

theorem Moved.length_eq (h : bench.Moved next) : next.runs.length = bench.runs.length := by
  cases h
  simp

theorem Moved.continues (h : bench.Moved next) : bench.Continues next := by
  refine ⟨h.length_eq, ?_⟩
  intro i live hlive
  rcases h.run?_cases hlive with hsame | ⟨moved, hmoved, hstepped⟩
  · exact ⟨live, hsame, .refl live⟩
  · exact ⟨moved, hmoved, hstepped.continues⟩

theorem run?_askToStop (bench : Bench) (i j : Nat) :
    (bench.askToStop i).run? j =
      (bench.run? j).map fun live => if i = j then { live with stopAsked := true } else live := by
  unfold run? askToStop
  rw [List.getElem?_modify]
  split <;> simp

theorem continues_askToStop (bench : Bench) (i : Nat) : bench.Continues (bench.askToStop i) := by
  refine ⟨by simp [askToStop], ?_⟩
  intro j live hlive
  rw [run?_askToStop, hlive]
  refine ⟨_, rfl, ?_⟩
  split
  · exact ⟨rfl, fun _ => rfl, fun _ => id⟩
  · exact .refl live

theorem Turn.continues (h : bench.Turn next) : bench.Continues next := by
  cases h with
  | work moved => exact moved.continues
  | elapse now later idle => exact continues_of_runs_eq rfl
  | outside site now => exact continues_of_runs_eq rfl
  | asked i => exact bench.continues_askToStop i

/-- To be asked to stop makes no difference to what a run can still do at one instant. -/
theorem Fit.askToStop (hfit : bench.Fit) (i : Nat) : (bench.askToStop i).Fit := by
  intro asked hmem
  obtain ⟨j, hj, rfl⟩ := List.mem_iff_getElem.mp hmem
  have hasked : (bench.askToStop i).run? j = some (bench.askToStop i).runs[j] :=
    List.getElem?_eq_getElem hj
  rw [run?_askToStop] at hasked
  obtain ⟨live, hlive, heq⟩ := Option.map_eq_some_iff.mp hasked
  obtain ⟨⟨hwithin, htimed, hshown, hleft, htended, hhushed⟩, hload⟩ :=
    hfit live (List.mem_of_getElem? hlive)
  rw [← heq]
  split
  · exact ⟨⟨hwithin, htimed, hshown, hleft, htended, hhushed⟩, hload⟩
  · exact ⟨⟨hwithin, htimed, hshown, hleft, htended, hhushed⟩, hload⟩

theorem Turn.fit (h : bench.Turn next) (hfit : bench.Fit) : next.Fit := by
  cases h with
  | work moved => exact moved.fit hfit
  | elapse now later idle => exact hfit.at_ idle now
  | outside site now =>
    unfold Fit
    rw [now]
    exact hfit
  | asked i => exact hfit.askToStop i

theorem Later.fit (h : bench.Later next) (hfit : bench.Fit) : next.Fit := by
  induction h with
  | refl => exact hfit
  | tail _ turn ih => exact turn.fit ih

theorem Later.continues (h : bench.Later next) : bench.Continues next := by
  induction h with
  | refl => exact .refl bench
  | tail _ turn ih => exact ih.trans turn.continues

/-! ## What a bench does -/

theorem Moved.now_eq (h : bench.Moved next) : next.site.now = bench.site.now := by
  cases h with
  | run step => exact (LiveRun.stepped_of_step? step).now_eq

theorem Moved.delay_eq (h : bench.Moved next) :
    next.site.kiln.temperatureDelay = bench.site.kiln.temperatureDelay ∧
      next.site.kiln.powerDelay = bench.site.kiln.powerDelay := by
  cases h with
  | run step => exact (LiveRun.stepped_of_step? step).delay_eq

theorem later_steps (bench : Bench) (count : Nat) : bench.Later (bench.steps count) := by
  induction count generalizing bench with
  | zero => exact .refl bench
  | succ count ih =>
    unfold steps
    split
    · rename_i next hstep
      exact (Turn.work (moved_of_step? hstep)).later.trans (ih next)
    · exact .refl bench

theorem now_steps (bench : Bench) (count : Nat) :
    (bench.steps count).site.now = bench.site.now := by
  induction count generalizing bench with
  | zero => rfl
  | succ count ih =>
    unfold steps
    split
    · rename_i next hstep
      exact (ih next).trans (moved_of_step? hstep).now_eq
    · rfl

theorem later_settle (bench : Bench) : bench.Later bench.settle := bench.later_steps _

theorem now_settle (bench : Bench) : bench.settle.site.now = bench.site.now := bench.now_steps _

/-- When all have to wait, whatever happens by itself happens later. -/
theorem Idle.lt_of_nextInstant? (hidle : bench.Idle) {now : Nat}
    (h : bench.nextInstant? = some now) : bench.site.now < now := by
  obtain ⟨live, hlive, hinstant⟩ := List.mem_flatMap.mp (List.min?_mem h)
  have hstuck := LiveRun.stuck_of_step? (hidle live hlive)
  unfold LiveRun.instants at hinstant
  rcases List.mem_append.mp hinstant with hinstant | hpower
  · rcases List.mem_append.mp hinstant with htick | htemperatures
    · split at htick
      · rename_i hphase
        obtain rfl := List.mem_singleton.mp htick
        exact hstuck.waits.tick hphase
      · cases htick
    · exact Poller.lt_of_nextEnd hstuck.temperatures (by simpa using htemperatures)
  · exact Poller.lt_of_nextEnd hstuck.power (by simpa using hpower)

/-- To let time pass until an instant is a later bench, as the jumps always suffice. -/
theorem Fit.later_passTo (hfit : bench.Fit) {instant jumps : Nat} (hsome : bench.site.now ≤ instant)
    (henough : instant < bench.site.now + jumps) : bench.Later (bench.passTo instant jumps) := by
  induction jumps generalizing bench with
  | zero => omega
  | succ jumps ih =>
    have hsettled := bench.later_settle
    have hidle := hfit.idle_settle
    have hnow := bench.now_settle
    have hpassed : bench.settle.Later (bench.settle.at_ instant) :=
      (Turn.elapse instant (by omega) hidle).later
    unfold passTo
    dsimp only
    split
    · rename_i next hnext
      have hlater := hidle.lt_of_nextInstant? hnext
      split
      · rename_i hbefore
        have hjump := (Turn.elapse next (by omega) hidle).later
        have hfitNext := hjump.fit (hsettled.fit hfit)
        refine hsettled.trans (hjump.trans (ih hfitNext ?_ ?_))
        · exact Nat.le_of_lt hbefore
        · show instant < next + jumps
          omega
      · exact hsettled.trans hpassed
    · exact hsettled.trans hpassed

theorem Fit.later_pass (hfit : bench.Fit) (milliseconds : Nat) :
    bench.Later (bench.pass milliseconds) :=
  hfit.later_passTo (by omega) (by omega)

theorem Fit.later_sleep (hfit : bench.Fit) (milliseconds : Nat) :
    bench.Later (bench.sleep milliseconds) := by
  unfold sleep
  split
  · exact .refl bench
  · exact hfit.later_pass milliseconds

theorem Fit.later_awaitTo (hfit : bench.Fit) (i : Nat) {instant : Nat} (jumps : Nat)
    (hsome : bench.site.now ≤ instant) : bench.Later (bench.awaitTo i instant jumps) := by
  induction jumps generalizing bench with
  | zero => exact .refl bench
  | succ jumps ih =>
    have hsettled := bench.later_settle
    have hidle := hfit.idle_settle
    have hnow := bench.now_settle
    have hpassed : bench.settle.Later (bench.settle.at_ instant) :=
      (Turn.elapse instant (by omega) hidle).later
    unfold awaitTo
    dsimp only
    split
    · exact hsettled
    · split
      · rename_i next hnext
        have hlater := hidle.lt_of_nextInstant? hnext
        split
        · rename_i hbefore
          have hjump := (Turn.elapse next (by omega) hidle).later
          have hfitNext := hjump.fit (hsettled.fit hfit)
          exact hsettled.trans (hjump.trans (ih hfitNext (Nat.le_of_lt hbefore)))
        · exact hsettled.trans hpassed
      · exact hsettled.trans hpassed

theorem Fit.later_stop (hfit : bench.Fit) (i limit : Nat) : bench.Later (bench.stop i limit) := by
  have hasked : bench.Later (bench.askToStop i) := (Turn.asked i).later
  exact hasked.trans ((hasked.fit hfit).later_awaitTo i _ (Nat.le_add_right _ _))

theorem Fit.later_readTemperatures (hfit : bench.Fit) : bench.Later bench.readTemperatures.1 := by
  have hbegun := bench.later_outside { bench.site with kiln := { bench.site.kiln with
    temperatureReads := bench.site.kiln.temperatureReads + 1 } } rfl
  exact hbegun.trans ((hbegun.fit hfit).later_sleep _)

theorem Fit.later_readPower (hfit : bench.Fit) : bench.Later bench.readPower.1 := by
  have hbegun := bench.later_outside { bench.site with kiln := { bench.site.kiln with
    powerReads := bench.site.kiln.powerReads + 1 } } rfl
  exact hbegun.trans ((hbegun.fit hfit).later_sleep _)

/-- While a run is being prepared, the others go on. -/
theorem Fit.later_prepare (hfit : bench.Fit) (program : Program) (settings : RunSettings) :
    bench.Later (bench.prepare program settings).1 := by
  have htemperatures := hfit.later_readTemperatures
  unfold prepare
  split
  · rename_i read fault hread
    rwa [hread] at htemperatures
  · rename_i read reading hread
    rw [hread] at htemperatures
    have hpower := htemperatures.trans (htemperatures.fit hfit).later_readPower
    dsimp only at hpower
    split
    · rename_i readBoth fault hboth
      rwa [hboth] at hpower
    · rename_i readBoth reading hboth
      rw [hboth] at hpower
      let tree := (Run.launch readBoth.site.storage readBoth.site.tree program settings
        readBoth.site.clock).1
      exact hpower.trans (readBoth.later_outside { readBoth.site with tree } rfl)

end Bench
end DryKiln
