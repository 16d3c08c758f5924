-- What is written reads back. For programs, defaults, statuses, entries of the history and readings
-- alike, the text of a value, on one line or indented, is read as the value, if each of its numbers
-- has a text that is read as the same number.
import DryKiln.Proofs.Document.Programs
import DryKiln.Run.Document

namespace DryKiln

open Document

/-! ## Readings -/

namespace Temperatures

/-- Both numbers are read back. -/
structure ReadsBack (t : Temperatures) : Prop where
  oven : Document.ReadsBack t.oven
  material : Document.ReadsBack t.material

theorem reread_reading {t : Temperatures} (h : t.ReadsBack) :
    ofReading? (Json.reread t.toReading) = some t := by
  have hslots : (Json.reread t.toReading).slots? [⟨"oven", false⟩, ⟨"material", false⟩] =
      some [some (Json.reread (ofBinary32 t.oven)), some (Json.reread (ofBinary32 t.material))] :=
    slots?_reread [("oven", some (ofBinary32 t.oven)), ("material", some (ofBinary32 t.material))]
      rfl rfl (by simp)
  have hoven := (readsBack_iff _).mp h.oven
  have hmaterial := (readsBack_iff _).mp h.material
  simp [ofReading?, hslots, required?, hoven, hmaterial]

theorem reread_status {t : Temperatures} (h : t.ReadsBack) :
    ofStatus? (Json.reread t.toStatus) = some t := by
  have hslots : (Json.reread t.toStatus).slots? [⟨"material", false⟩, ⟨"oven", false⟩] =
      some [some (Json.reread (ofBinary32 t.material)), some (Json.reread (ofBinary32 t.oven))] :=
    slots?_reread [("material", some (ofBinary32 t.material)), ("oven", some (ofBinary32 t.oven))]
      rfl rfl (by simp)
  have hoven := (readsBack_iff _).mp h.oven
  have hmaterial := (readsBack_iff _).mp h.material
  simp [ofStatus?, hslots, required?, hoven, hmaterial]

end Temperatures

theorem PerChannel.reread {α : Type} {read : Document → Option α} {encode : α → Document}
    (h : ∀ value, read (Json.reread (encode value)) = some value) (table : PerChannel α) :
    PerChannel.ofDocument? read (Json.reread (table.toDocument encode)) = some table := by
  have hslots : (Json.reread (table.toDocument encode)).slots? [⟨"heater", false⟩, ⟨"fan", false⟩,
      ⟨"humidifier", false⟩] = some [some (Json.reread (encode table.heater)),
        some (Json.reread (encode table.fan)), some (Json.reread (encode table.humidifier))] :=
    slots?_reread [("heater", some (encode table.heater)), ("fan", some (encode table.fan)),
      ("humidifier", some (encode table.humidifier))] rfl rfl (by simp)
  simp [ofDocument?, hslots, required?, h]

namespace ChannelReading

theorem ofLabel?_reread (switch : Switch) :
    (Document.text switch.label).label?.bind Switch.ofLabel? = some switch := by
  cases switch <;> decide

theorem reread (reading : ChannelReading) :
    ofDocument? (Json.reread reading.toDocument) = some reading := by
  have hslots : (Json.reread reading.toDocument).slots? [⟨"status", true⟩, ⟨"percent", true⟩] =
      some [some (.text reading.switch.label),
        some (Json.reread (ofWhole reading.percent.toNat))] :=
    slots?_reread [("status", some (.text reading.switch.label)),
      ("percent", some (ofWhole reading.percent.toNat))] rfl rfl (by simp)
  simp [ofDocument?, hslots, defaulted?, ofLabel?_reread, percent?_reread]

end ChannelReading

theorem PowerReading.reread (reading : PowerReading) :
    PowerReading.ofDocument? (Json.reread reading.toDocument) = some reading :=
  PerChannel.reread ChannelReading.reread reading

theorem percents_reread (percents : PerChannel UInt8) :
    percentsOfDocument? (Json.reread (percentsToDocument percents)) = some percents :=
  PerChannel.reread percent?_reread percents

/-! ## Statuses and entries of the history -/

namespace Status

/-- All numbers are read back, and the seconds fit a machine word. -/
structure ReadsBack (status : Status) : Prop where
  program : status.program.ReadsBack
  temperatures : status.temperatures.ReadsBack
  startedAt : InstantRange status.startedAt
  stepStartedAt : InstantRange status.stepStartedAt

theorem slots?_reread (status : Status) :
    (Json.reread status.toDocument).slots? [⟨"program", false⟩, ⟨"started_at", true⟩,
      ⟨"current_step", true⟩, ⟨"current_step_started_at", true⟩, ⟨"temperatures", true⟩,
      ⟨"power_status", true⟩] =
    some [some (Json.reread status.program.toDocument),
      some (Json.reread (ofWhole status.startedAt)), some (.text status.stepName),
      some (Json.reread (ofWhole status.stepStartedAt)),
      some (Json.reread status.temperatures.toStatus),
      some (Json.reread (percentsToDocument status.power))] :=
  Document.slots?_reread [("program", some status.program.toDocument),
    ("started_at", some (ofWhole status.startedAt)), ("current_step", some (.text status.stepName)),
    ("current_step_started_at", some (ofWhole status.stepStartedAt)),
    ("temperatures", some status.temperatures.toStatus),
    ("power_status", some (percentsToDocument status.power))] rfl rfl (by simp)

theorem reread {status : Status} (h : status.ReadsBack) :
    ofDocument (Json.reread status.toDocument) = .ok status := by
  have hprogram := (Program.reread_iff status.program).mpr h.program
  have htemperatures := Temperatures.reread_status h.temperatures
  simp [ofDocument, slots?_reread, readable, bind, Except.bind, pure, Except.pure, hprogram,
    defaulted?, instant?_reread h.startedAt, instant?_reread h.stepStartedAt, text?,
    htemperatures, percents_reread]

end Status

namespace HistoryEntry

theorem state_reread (state : RunState) :
    RunState.ofDocument? (Json.reread state.toDocument) = some state := by
  cases state <;> decide

theorem reread {entry : HistoryEntry} (h : ∀ second ∈ entry.completedAt, InstantRange second) :
    ofDocument? (Json.reread entry.toDocument) = some entry := by
  have hgiven : entry.toDocument = .record (present [("name", some (.text entry.name)),
      ("state", some entry.state.toDocument), ("completed_at", entry.completedAt.map ofWhole)]) := by
    simp only [present_cons_some, present_cons_map]
    simp [toDocument, present]
  have hslots : (Json.reread entry.toDocument).slots? [⟨"name", false⟩, ⟨"state", false⟩,
      ⟨"completed_at", true⟩] = some [some (.text entry.name),
        some (Json.reread entry.state.toDocument),
        entry.completedAt.map fun second => Json.reread (ofWhole second)] := by
    rw [slots?_reread _ hgiven rfl (by simp)]
    simp [Json.reread, Function.comp_def]
  have hcompleted : optional? instant?
      (entry.completedAt.map fun second => Json.reread (ofWhole second)) = some entry.completedAt :=
    (optional?_map rfl _ entry.completedAt).mpr fun second hsecond =>
      instant?_reread (h second hsecond)
  simp [ofDocument?, hslots, required?, text?, state_reread, hcompleted]

end HistoryEntry

/-! ## The law -/

/-- What is written reads back, in either style: every program, all defaults, every status, every
entry of the history and every reading, if its numbers have texts that are read as the same numbers
and its seconds are those of a machine word. -/
theorem what_is_written_reads_back (style : Json.Style) :
    (∀ program : Program, program.ReadsBack →
      (readable (Json.read? (Json.text style program.toDocument)) >>= Program.ofDocument) =
        .ok program) ∧
    (∀ defaults : Defaults, defaults.Sorted → defaults.ReadsBack →
      (Json.read? (Json.text style defaults.toDocument) >>= Defaults.ofDocument? .json) =
        some defaults) ∧
    (∀ status : Status, status.ReadsBack →
      (readable (Json.read? (Json.text style status.toDocument)) >>= Status.ofDocument) =
        .ok status) ∧
    (∀ entry : HistoryEntry, (∀ second ∈ entry.completedAt, InstantRange second) →
      (Json.read? (Json.text style entry.toDocument) >>= HistoryEntry.ofDocument?) = some entry) ∧
    (∀ reading : Temperatures, reading.ReadsBack →
      (Json.read? (Json.text style reading.toReading) >>= Temperatures.ofReading?) =
        some reading) ∧
    ∀ reading : PowerReading,
      (Json.read? (Json.text style reading.toDocument) >>= PowerReading.ofDocument?) =
        some reading := by
  simp only [Json.read?_text]
  refine ⟨?_, ?_, ?_, ?_, ?_, ?_⟩
  · intro program h
    exact (Program.reread_iff program).mpr h
  · intro defaults hsorted h
    exact Defaults.reread hsorted h
  · intro status h
    exact Status.reread h
  · intro entry h
    exact HistoryEntry.reread h
  · intro reading h
    exact Temperatures.reread_reading h
  · intro reading
    exact PowerReading.reread reading

/-- A program whose heater keeps a band, with a name that has to be escaped. -/
def bandedHeat : Program where
  name := "oak \"A\""
  steps := [⟨"up", .heating, some 60, none, ⟨some (.band 0.1 2.5), some (.constant 100), none⟩⟩]
  maxRuntime := some 86400

/-- A program, the standard defaults, a status, an entry of the history and readings, written on
indented lines and read. -/
theorem banded_heat_reads_back :
    let status : Status := ⟨bandedHeat, 1700000000, "up", -1, ⟨20.5, 19⟩, .fill 100⟩
    let entry : HistoryEntry := ⟨"oak", .canceled, some 1700000000⟩
    let reading : Temperatures := ⟨0.1, -40⟩
    (readable (Json.read? (Json.text .indented bandedHeat.toDocument)) >>= Program.ofDocument) =
      .ok bandedHeat ∧
    (Json.read? (Json.text .indented Defaults.standard.toDocument) >>=
      Defaults.ofDocument? .json) = some .standard ∧
    (readable (Json.read? (Json.text .indented status.toDocument)) >>= Status.ofDocument) =
      .ok status ∧
    (Json.read? (Json.text .indented entry.toDocument) >>= HistoryEntry.ofDocument?) =
      some entry ∧
    (Json.read? (Json.text .indented reading.toReading) >>= Temperatures.ofReading?) =
      some reading ∧
    (Json.read? (Json.text .indented PowerReading.zero.toDocument) >>= PowerReading.ofDocument?) =
      some .zero := by
  intro status entry reading
  have hprogram : bandedHeat.ReadsBack := by decide +kernel
  have hdefaults : Defaults.standard.ReadsBack := by decide +kernel
  have hsorted : Defaults.standard.Sorted := by decide
  have hstatus : status.ReadsBack :=
    ⟨hprogram, ⟨by decide +kernel, by decide +kernel⟩, by decide, by decide⟩
  have hentry : ∀ second ∈ entry.completedAt, InstantRange second := by decide
  have hreading : reading.ReadsBack := ⟨by decide +kernel, by decide +kernel⟩
  obtain ⟨hprograms, hdefaultses, hstatuses, hentries, hreadings, hpowers⟩ :=
    what_is_written_reads_back .indented
  exact ⟨hprograms _ hprogram, hdefaultses _ hsorted hdefaults, hstatuses _ hstatus,
    hentries _ hentry, hreadings _ hreading, hpowers _⟩

end DryKiln
