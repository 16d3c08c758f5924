-- What a program is like that has been filled from the defaults of an installation and accepted.
-- Every check asks whether something is too large; what passes is small enough as far as it can
-- be compared at all. A program's own numbers always can, since JSON has no NaN. The deltas of the
-- defaults can be NaN: then no band made of them has its ends in order, and every check passes.
import DryKiln.Config.Load
import DryKiln.Proofs.Document.Ordinary
import DryKiln.Proofs.Program.Accepted

namespace DryKiln

/-! ## Filling -/

namespace Step

variable (defaults : Defaults) (step : Step)

theorem get_phases_fill (channel : Channel) : (step.fill defaults).phases.get channel =
    some ((step.phases.get channel).getD (defaultPhase defaults step.kind channel)) :=
  PerChannel.get_ofFn _ channel

/-- The defaults hold one band, for the heater of a heating step. -/
theorem defaultPhase_eq_band_iff (channel : Channel) (low high : Float32) :
    defaultPhase defaults step.kind channel = .band low high ↔
      channel = .heater ∧ step.kind = .heating ∧ defaults.lowDelta = low ∧
        defaults.highDelta = high := by
  cases channel with
  | heater => cases step.kind <;> simp [defaultPhase, Regulation.off]
  | fan | humidifier => simp [defaultPhase, Regulation.off]

/-- The band of the defaults is put into this step. -/
def NeedsBand : Prop := step.kind = .heating ∧ step.phases.heater = none

/-- The bands of a filled step are its own, and perhaps that of the defaults. -/
theorem get_phases_fill_eq_band_iff (channel : Channel) (low high : Float32) :
    (step.fill defaults).phases.get channel = some (.band low high) ↔
      step.phases.get channel = some (.band low high) ∨
        channel = .heater ∧ step.NeedsBand ∧ defaults.lowDelta = low ∧
          defaults.highDelta = high := by
  rw [get_phases_fill, Option.some_inj]
  cases hphase : step.phases.get channel with
  | some regulation =>
    have hset : ¬ (channel = .heater ∧ step.NeedsBand ∧ defaults.lowDelta = low ∧
        defaults.highDelta = high) := by
      rintro ⟨rfl, ⟨_, hnone⟩, _⟩
      exact Option.some_ne_none regulation (hphase.symm.trans hnone)
    rw [Option.getD_some, Option.some_inj, or_iff_left hset]
  | none =>
    rw [Option.getD_none, defaultPhase_eq_band_iff]
    constructor
    · rintro ⟨rfl, hkind, hlow, hhigh⟩
      exact .inr ⟨rfl, ⟨hkind, hphase⟩, hlow, hhigh⟩
    · rintro (hband | ⟨rfl, ⟨hkind, _⟩, hlow, hhigh⟩)
      · cases hband
      · exact ⟨rfl, hkind, hlow, hhigh⟩

end Step

/-! ## What is relied on -/

namespace Step

/-- What a running step relies on, but for its bands. -/
structure Sound (step : Step) : Prop where
  set : ∀ channel, ∃ regulation, step.phases.get channel = some regulation
  constant : ∀ channel, (channel ≠ .heater ∨ step.kind = .cooling) →
    ∃ percent, step.phases.get channel = some (.constant percent)
  percent : ∀ channel percent, step.phases.get channel = some (.constant percent) → percent ≤ 100
  target : step.kind ≠ .cooling → ∃ target, step.target = some target
  target_le : ∀ target, step.target = some target → target ≤ maxTarget
  runtime : step.kind = .acclimate → ∃ seconds, step.runtime = some seconds

/-- The ends of every band are in order. -/
def HasOrderedBands (step : Step) : Prop :=
  ∀ channel low high, step.phases.get channel = some (.band low high) → low ≤ high

/-- A step that has been accepted is sound if its target is a number. -/
theorem Accepted.sound {step : Step} (h : step.Accepted)
    (htarget : ∀ target, step.target = some target → target.isNaN = false) : step.Sound where
  set channel := by
    obtain ⟨regulation, hphase, _⟩ := h.phases channel
    exact ⟨regulation, hphase⟩
  constant channel hchannel := by
    apply h.constant
    rcases hchannel with hother | hcooling
    · simp [mustBeConstant, hother]
    · simp [mustBeConstant, hcooling]
  percent channel percent hphase := h.percent_le (phase_of_get hphase)
  target hkind := Option.isSome_iff_exists.mp (h.target hkind)
  target_le target hset :=
    Binary32.le_of_not_lt (htarget target hset) (by decide +kernel) (h.target_le target hset)
  runtime hkind := Option.isSome_iff_exists.mp (h.runtime hkind)

/-- An accepted band is in order as soon as its ends are numbers. -/
theorem Accepted.le_of_band {step : Step} (h : step.Accepted) {channel : Channel}
    {low high : Float32} (hband : step.phases.get channel = some (.band low high))
    (hlow : low.isNaN = false) (hhigh : high.isNaN = false) : low ≤ high := by
  obtain ⟨regulation, hphase, hfits⟩ := h.phases channel
  exact Binary32.le_of_not_lt hlow hhigh
    (hfits.band low high (Option.some.inj (hphase.symm.trans hband)))

/-- A step of a program that has been filled and accepted has its bands in order, unless it has
one from the defaults that is not. -/
theorem hasOrderedBands_fill_iff {defaults : Defaults} {step : Step} (hstep : step.IsComparable)
    (h : (step.fill defaults).Accepted) : (step.fill defaults).HasOrderedBands ↔
      (step.NeedsBand → defaults.lowDelta ≤ defaults.highDelta) := by
  constructor
  · intro hordered hneeds
    exact hordered .heater _ _ ((get_phases_fill_eq_band_iff defaults step .heater _ _).mpr
      (.inr ⟨rfl, hneeds, rfl, rfl⟩))
  · intro hdefaults channel low high hband
    rcases (get_phases_fill_eq_band_iff defaults step channel low high).mp hband with
      hown | ⟨_, hneeds, rfl, rfl⟩
    · obtain ⟨hlow, hhigh⟩ := hstep.phases channel _ hown low high rfl
      exact h.le_of_band hband hlow hhigh
    · exact hdefaults hneeds

end Step

/-- What a running program relies on, but for the bands of its steps. -/
structure Program.Sound (program : Program) : Prop where
  name : ∃ c ∈ program.name.toList, isBlank c = false
  steps_ne_nil : program.steps ≠ []
  steps : ∀ step ∈ program.steps, step.Sound

/-! ## Configurations -/

namespace Config

/-- A configuration that can be used does not have the deltas of its defaults the wrong way round. -/
theorem not_lt_of_check {config : Config} (h : config.check = .ok ()) :
    ¬ config.defaults.highDelta < config.defaults.lowDelta := by
  simp only [Config.check, andThen_eq_ok, throw_or_eq_ok, throw_eq_ok] at h
  exact h.2.2.2.2.2.2.2.2

theorem check_of_ofToml {settings : String} {config : Config} (h : ofToml settings = .ok config) :
    config.check = .ok () := by
  unfold ofToml checked at h
  split at h
  · cases h
  · split at h
    · cases h
    · rename_i found _
      cases hcheck : found.check with
      | error fault => simp [hcheck, Except.mapError, Except.map] at h
      | ok _ =>
        simp only [hcheck, Except.mapError, Except.map, Except.ok.injEq] at h
        exact h ▸ hcheck

end Config

/-! ## Admission -/

namespace Program

/-- A program that has been read, filled and accepted is sound, whatever the configuration. Its
bands are in order if and only if no heating step takes its band from the defaults or the deltas of
the defaults are; and these are, in a configuration that can be used, if and only if neither is
NaN. -/
theorem admitted_is_sound {settings text : String} {config : Config} {program ready : Program}
    (hconfig : Config.ofToml settings = .ok config)
    (hprogram : (readable (Json.read? text) >>= ofDocument) = .ok program)
    (hready : program.ready config.defaults = .ok ready) :
    ready.Sound ∧
      ((∀ step ∈ ready.steps, step.HasOrderedBands) ↔
        ((∃ step ∈ program.steps, step.NeedsBand) →
          config.defaults.lowDelta ≤ config.defaults.highDelta)) ∧
      (config.defaults.lowDelta ≤ config.defaults.highDelta ↔
        config.defaults.lowDelta.isNaN = false ∧ config.defaults.highDelta.isNaN = false) := by
  obtain ⟨rfl, haccepted⟩ := ready_eq_ok_iff.mp hready
  have hcomparable := isComparable_of_read? hprogram
  have hsteps : ∀ step ∈ program.steps, (step.fill config.defaults).Accepted := fun step hstep =>
    haccepted.steps _ (List.mem_map_of_mem hstep)
  refine ⟨⟨haccepted.name, haccepted.steps_ne_nil, ?_⟩, ?_, ?_⟩
  · intro filled hfilled
    obtain ⟨step, hstep, rfl⟩ := List.mem_map.mp hfilled
    exact (hsteps step hstep).sound (hcomparable step hstep).target
  · have hbands : ∀ step ∈ program.steps, (step.fill config.defaults).HasOrderedBands ↔
        (step.NeedsBand → config.defaults.lowDelta ≤ config.defaults.highDelta) :=
      fun step hstep => Step.hasOrderedBands_fill_iff (hcomparable step hstep) (hsteps step hstep)
    constructor
    · rintro hordered ⟨step, hstep, hneeds⟩
      exact (hbands step hstep).mp (hordered _ (List.mem_map_of_mem hstep)) hneeds
    · intro hdefaults filled hfilled
      obtain ⟨step, hstep, rfl⟩ := List.mem_map.mp hfilled
      exact (hbands step hstep).mpr fun hneeds => hdefaults ⟨step, hstep, hneeds⟩
  · constructor
    · exact Binary32.isNaN_of_le
    · rintro ⟨hlow, hhigh⟩
      exact Binary32.le_of_not_lt hlow hhigh (Config.not_lt_of_check (Config.check_of_ofToml hconfig))

/-- A text with a heating step that leaves its phases to the defaults. -/
def openHeatText : String :=
  "\x7b\"name\":\"oak\",\"steps\":[\x7b\"name\":\"up\",\"type\":\"heating\"," ++
    "\"temperature_target\":60\x7d]\x7d"

def openHeat : Program where
  name := "oak"
  steps := [⟨"up", .heating, some 60, none, .fill none⟩]
  maxRuntime := none

/-- The settings that every installation needs. -/
def plainSettings : String :=
  "base_path = \"/kiln\"\nshared.service_name = \"kiln\"\nendpoints.sensorunit.url = \"s\"\n" ++
    "endpoints.powerunit.url = \"p\"\n"

def plainConfig : Config where
  shared := ⟨"kiln", .standard⟩
  basePath := "/kiln"
  tickLength := standardTickLength
  staleAfter := standardStaleAfter
  logResolution := standardLogResolution
  httpTimeout := standardHttpTimeout
  sensorUnit := ⟨"s", "/temperatures"⟩
  powerUnit := ⟨"p", "/power"⟩
  defaults := .standard

theorem ofToml_plainSettings : Config.ofToml plainSettings = .ok plainConfig := by decide +kernel

theorem read_openHeatText :
    (readable (Json.read? openHeatText) >>= ofDocument) = .ok openHeat := by decide +kernel

/-- The standard deltas are in order, so a heating step that takes them has its band in order. -/
theorem open_heat_is_sound :
    let ready := openHeat.fill plainConfig.defaults
    Config.ofToml plainSettings = .ok plainConfig ∧
      (readable (Json.read? openHeatText) >>= ofDocument) = .ok openHeat ∧
      openHeat.ready plainConfig.defaults = .ok ready ∧
      ready.Sound ∧ ∀ step ∈ ready.steps, step.HasOrderedBands := by
  intro ready
  have hready : openHeat.ready plainConfig.defaults = .ok ready := by decide +kernel
  obtain ⟨hsound, hbands, _⟩ := admitted_is_sound ofToml_plainSettings read_openHeatText hready
  exact ⟨ofToml_plainSettings, read_openHeatText, hready, hsound,
    hbands.mpr fun _ => by decide +kernel⟩

/-- Settings with a default delta that is NaN. -/
def nanSettings : String :=
  plainSettings ++ "defaults.min_delta_heating = nan\ndefaults.max_delta_heating = 10\n"

def nanConfig : Config := { plainConfig with defaults := ⟨[], 0 / 0, 10⟩ }

/-- Both checks let the NaN pass: a heating step is run with a band that has no order. -/
theorem band_of_nan_is_admitted :
    let ready := openHeat.fill nanConfig.defaults
    Config.ofToml nanSettings = .ok nanConfig ∧
      (readable (Json.read? openHeatText) >>= ofDocument) = .ok openHeat ∧
      openHeat.ready nanConfig.defaults = .ok ready ∧
      ∃ step ∈ ready.steps, ¬ step.HasOrderedBands := by
  intro ready
  have hconfig : Config.ofToml nanSettings = .ok nanConfig := by decide +kernel
  have hready : openHeat.ready nanConfig.defaults = .ok ready := by decide +kernel
  have hnot : ¬ nanConfig.defaults.lowDelta ≤ nanConfig.defaults.highDelta := by decide +kernel
  refine ⟨hconfig, read_openHeatText, hready, _, List.mem_map_of_mem List.mem_cons_self, ?_⟩
  exact fun hordered => hnot (hordered .heater _ _ rfl)

end Program
end DryKiln
