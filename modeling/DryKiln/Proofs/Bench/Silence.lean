-- Runs that are silent. Once a run is over and its commands have been delivered, it touches no file
-- and tells the power unit nothing, however much time passes on the bench.
import DryKiln.Bench.Basic
import DryKiln.Proofs.Run.Record

namespace DryKiln

/-- The files are as they were, and the power unit has been told nothing. -/
structure BenchSite.Untouched (site next : BenchSite) : Prop where
  storage : next.storage = site.storage
  tree : next.tree = site.tree
  delivered : next.kiln.delivered = site.kiln.delivered

namespace BenchSite.Untouched

variable {site middle next : BenchSite}

theorem refl (site : BenchSite) : Untouched site site := ⟨rfl, rfl, rfl⟩

theorem trans (h₁ : Untouched site middle) (h₂ : Untouched middle next) : Untouched site next :=
  ⟨h₂.storage.trans h₁.storage, h₂.tree.trans h₁.tree, h₂.delivered.trans h₁.delivered⟩

end BenchSite.Untouched

/-! ## One run -/

namespace LiveRun

/-- The run hears of nothing any more, and none of its commands is on its way. -/
structure Silent (live : LiveRun) : Prop where
  deaf : live.run.phase = .brokenOff ∨ ∃ state, live.run.phase = .over state
  still : live.gateway.delivery = .working → live.gateway.commands = []

theorem silent_of_outcome {live : LiveRun} {outcome : RunOutcome}
    (h : live.ending? = some (.outcome outcome)) : live.Silent := by
  unfold ending? at h
  split at h
  · cases h
  split at h
  · rename_i hfinished
    have hgateway : live.gateway.delivery = .finished := by
      simpa [Gateway.isFinished] using (Bool.and_eq_true_iff.mp hfinished).2
    obtain ⟨_, hover, -⟩ := Option.map_eq_some_iff.mp h
    exact ⟨.inr ⟨_, (Run.phase_of_outcome hover).1⟩, fun hworking => by simp [hgateway] at hworking⟩
  · cases h

variable {site next : BenchSite} {live after : LiveRun}

theorem Silent.nextEvent? (h : live.Silent) (now : Nat) : live.nextEvent? now = none := by
  unfold LiveRun.nextEvent?
  rcases h.deaf with hphase | ⟨state, hphase⟩ <;> rw [hphase]

theorem Silent.deliver? (h : live.Silent) (hstep : live.deliver? site = some (next, after)) :
    site.Untouched next ∧ after.Silent := by
  unfold LiveRun.deliver? Gateway.step? at hstep
  split at hstep
  · rename_i hworking
    rw [h.still hworking] at hstep
    cases hopen : live.gateway.isOpen <;> simp [hopen] at hstep
    obtain ⟨rfl, rfl⟩ := hstep
    exact ⟨.refl site, h.deaf, fun _ => rfl⟩
  · cases hstep

/-- A step of a silent run is one of its pollers, or ends its gateway. -/
theorem Silent.step? (h : live.Silent) (hstep : live.step? site = some (next, after)) :
    site.Untouched next ∧ after.Silent := by
  unfold LiveRun.step? at hstep
  rw [h.nextEvent?] at hstep
  simp only [Option.or_eq_some_iff] at hstep
  rcases hstep with hpoll | ⟨-, hpoll | ⟨-, hdeliver⟩⟩
  · obtain ⟨_, _, heq⟩ := Option.map_eq_some_iff.mp hpoll
    cases heq
    exact ⟨⟨rfl, rfl, rfl⟩, h.deaf, h.still⟩
  · obtain ⟨_, _, heq⟩ := Option.map_eq_some_iff.mp hpoll
    cases heq
    exact ⟨⟨rfl, rfl, rfl⟩, h.deaf, h.still⟩
  · exact h.deliver? hdeliver

end LiveRun

/-! ## A bench -/

namespace Bench

/-- All runs on the bench are silent. -/
def Silent (bench : Bench) : Prop := ∀ live ∈ bench.runs, live.Silent

/-- What happens on a silent bench touches nothing, and the bench stays silent. -/
structure Rests (bench next : Bench) : Prop where
  silent : next.Silent
  untouched : bench.site.Untouched next.site
  length_eq : next.runs.length = bench.runs.length

variable {bench middle next : Bench}

theorem Silent.rests (h : bench.Silent) : Rests bench bench := ⟨h, .refl bench.site, rfl⟩

theorem Rests.trans (h₁ : Rests bench middle) (h₂ : Rests middle next) : Rests bench next :=
  ⟨h₂.silent, h₁.untouched.trans h₂.untouched, h₂.length_eq.trans h₁.length_eq⟩

theorem stepRuns_of_silent {site siteNext : BenchSite} {runs runsNext : List LiveRun}
    (h : ∀ live ∈ runs, live.Silent) (hstep : stepRuns? site runs = some (siteNext, runsNext)) :
    Rests ⟨site, runs⟩ ⟨siteNext, runsNext⟩ := by
  induction runs generalizing runsNext with
  | nil => cases hstep
  | cons live rest ih =>
    obtain ⟨hlive, hrest⟩ := List.forall_mem_cons.mp h
    unfold stepRuns? at hstep
    split at hstep
    · rename_i after hmoved
      cases hstep
      obtain ⟨huntouched, hafter⟩ := hlive.step? hmoved
      exact ⟨List.forall_mem_cons.mpr ⟨hafter, hrest⟩, huntouched, rfl⟩
    · obtain ⟨⟨siteMoved, restMoved⟩, hmoved, heq⟩ := Option.map_eq_some_iff.mp hstep
      cases heq
      obtain ⟨hsilent, huntouched, hlength⟩ := ih hrest hmoved
      exact ⟨List.forall_mem_cons.mpr ⟨hlive, hsilent⟩, huntouched,
        congrArg (· + 1) hlength⟩

theorem Silent.step? (h : bench.Silent) (hstep : bench.step? = some next) : Rests bench next := by
  obtain ⟨_, hmoved, rfl⟩ := Option.map_eq_some_iff.mp hstep
  exact stepRuns_of_silent h hmoved

theorem Silent.steps (h : bench.Silent) (count : Nat) : Rests bench (bench.steps count) := by
  induction count generalizing bench with
  | zero => exact h.rests
  | succ count ih =>
    unfold Bench.steps
    split
    · rename_i next hstep
      have hrests := h.step? hstep
      exact hrests.trans (ih hrests.silent)
    · exact h.rests

theorem Silent.settle (h : bench.Silent) : Rests bench bench.settle := h.steps _

theorem Silent.at_ (h : bench.Silent) (now : Nat) : Rests bench (bench.at_ now) :=
  ⟨h, ⟨rfl, rfl, rfl⟩, rfl⟩

theorem Silent.passTo (h : bench.Silent) (instant jumps : Nat) :
    Rests bench (bench.passTo instant jumps) := by
  induction jumps generalizing bench with
  | zero => exact h.at_ instant
  | succ jumps ih =>
    have hsettled := h.settle
    unfold Bench.passTo
    dsimp only
    split
    · split
      · rename_i now _ _
        have hat := hsettled.trans (hsettled.silent.at_ now)
        exact hat.trans (ih hat.silent)
      · exact hsettled.trans (hsettled.silent.at_ instant)
    · exact hsettled.trans (hsettled.silent.at_ instant)

theorem Silent.sleep (h : bench.Silent) (milliseconds : Nat) :
    Rests bench (bench.sleep milliseconds) := by
  unfold Bench.sleep
  split
  · exact h.rests
  · exact h.passTo _ _

/-- A unit is read while nothing else happens. -/
theorem Silent.readTemperatures (h : bench.Silent) : Rests bench bench.readTemperatures.1 := by
  refine Rests.trans ?_ (Silent.sleep ?_ _)
  · exact ⟨h, ⟨rfl, rfl, rfl⟩, rfl⟩
  · exact h

theorem Silent.readPower (h : bench.Silent) : Rests bench bench.readPower.1 := by
  refine Rests.trans ?_ (Silent.sleep ?_ _)
  · exact ⟨h, ⟨rfl, rfl, rfl⟩, rfl⟩
  · exact h

end Bench
end DryKiln
