-- What is read of a written program. A program that has been written and read is the same program
-- exactly if each of its numbers is read back; the mode of a regulation is found again from the
-- settings that are there, and agrees with the one that is named.
import DryKiln.Proofs.Document.Fields

namespace DryKiln

open Document

/-! ## Gains -/

namespace Gains

/-- All numbers are read back. -/
def ReadsBack (gains : Gains) : Prop :=
  Document.ReadsBack gains.kp ∧ Document.ReadsBack gains.ki ∧ Document.ReadsBack gains.kd

instance (gains : Gains) : Decidable gains.ReadsBack := inferInstanceAs (Decidable (_ ∧ _ ∧ _))

theorem slots?_reread (gains : Gains) :
    (Json.reread gains.toDocument).slots? [⟨"kp", false⟩, ⟨"ki", false⟩, ⟨"kd", false⟩] =
      some [some (Json.reread (ofBinary32 gains.kp)), some (Json.reread (ofBinary32 gains.ki)),
        some (Json.reread (ofBinary32 gains.kd))] :=
  Document.slots?_reread [("kp", some (ofBinary32 gains.kp)), ("ki", some (ofBinary32 gains.ki)),
    ("kd", some (ofBinary32 gains.kd))] rfl rfl (by simp)

theorem reread_iff (gains : Gains) :
    ofDocument? .json (Json.reread gains.toDocument) = some gains ↔ gains.ReadsBack := by
  simp only [ofDocument?, Format.slots?, slots?_reread, required?, Option.bind_eq_bind,
    Option.bind_some, Option.bind_eq_some_iff, Option.pure_def, Option.some.injEq, ReadsBack,
    readsBack_iff]
  constructor
  · rintro ⟨kp, hkp, ki, hki, kd, hkd, rfl⟩
    exact ⟨hkp, hki, hkd⟩
  · rintro ⟨hkp, hki, hkd⟩
    exact ⟨_, hkp, _, hki, _, hkd, rfl⟩

end Gains

/-! ## Regulations -/

namespace Regulation

def ReadsBack : Regulation → Prop
  | constant _ => True
  | band low high => Document.ReadsBack low ∧ Document.ReadsBack high
  | feedback gains => gains.ReadsBack

instance : (regulation : Regulation) → Decidable regulation.ReadsBack
  | constant _ => isTrue trivial
  | band low high =>
    inferInstanceAs (Decidable (Document.ReadsBack low ∧ Document.ReadsBack high))
  | feedback gains => inferInstanceAs (Decidable gains.ReadsBack)

theorem ofLabel?_reread (method : Method) :
    optional? (fun d => d.label? >>= Method.ofLabel?) (some (.text method.label)) =
      some (some method) := by
  cases method <;> decide

/-- The settings of a regulation, written and read. -/
theorem given_reread (regulation : Regulation) (percent low high gains : Option Document)
    (hgiven : regulation.toDocument =
      .record (present [("type", some (.text regulation.method.label)), ("power", percent),
        ("min_delta", low), ("max_delta", high), ("pid", gains)])) :
    GivenRegulation.ofDocument? (Json.reread regulation.toDocument) = do
      return ⟨some regulation.method, ← optional? percent? (percent.map Json.reread),
        ← optional? binary32? (low.map Json.reread), ← optional? binary32? (high.map Json.reread),
        ← optional? (Gains.ofDocument? .json) (gains.map Json.reread)⟩ := by
  have hmethod := ofLabel?_reread regulation.method
  rw [Option.bind_eq_bind] at hmethod
  rw [GivenRegulation.ofDocument?, slots?_reread _ hgiven rfl (by simp)]
  simp [Json.reread, hmethod]

theorem given_constant (percent : UInt8) :
    GivenRegulation.ofDocument? (Json.reread (constant percent).toDocument) =
      some ⟨some .constant, some percent, none, none, none⟩ := by
  have hpercent : optional? percent? (some (Json.reread (ofWhole percent.toNat))) =
      some (some percent) :=
    (optional?_eq_some_iff rfl _ _).mpr (percent?_reread percent)
  rw [given_reread _ (some (ofWhole percent.toNat)) none none none rfl, Option.map_some, hpercent]
  rfl

theorem given_band (low high : Float32) :
    GivenRegulation.ofDocument? (Json.reread (band low high).toDocument) = do
      return ⟨some .band, none, ← optional? binary32? (some (Json.reread (ofBinary32 low))),
        ← optional? binary32? (some (Json.reread (ofBinary32 high))), none⟩ := by
  rw [given_reread _ none (some (ofBinary32 low)) (some (ofBinary32 high)) none rfl]
  simp [optional?, method]

theorem given_feedback (gains : Gains) :
    GivenRegulation.ofDocument? (Json.reread (feedback gains).toDocument) = do
      return ⟨some .feedback, none, none, none,
        ← optional? (Gains.ofDocument? .json) (some (Json.reread gains.toDocument))⟩ := by
  rw [given_reread _ none none none (some gains.toDocument) rfl]
  simp [optional?, method]

theorem gains_null : Gains.ofDocument? .json .null = none := rfl

theorem ofDocument_eq_ok_iff (d : Document) (regulation : Regulation) :
    ofDocument d = .ok regulation ↔
      ∃ given, GivenRegulation.ofDocument? d = some given ∧ given.settle = .ok regulation := by
  rw [ofDocument, bind_eq_ok]
  constructor
  · rintro ⟨given, hgiven, hsettle⟩
    refine ⟨given, readable_eq_ok.mp hgiven, ?_⟩
    cases hresult : given.settle with
    | error fault => simp [hresult, Except.mapError] at hsettle
    | ok found => simpa [hresult, Except.mapError] using hsettle
  · rintro ⟨given, hgiven, hsettle⟩
    exact ⟨given, readable_eq_ok.mpr hgiven, by rw [hsettle]; rfl⟩

/-- A band is settled only if both its ends are there, and then it is made of them. -/
theorem settle_band_iff (first second : Option Float32) (low high : Float32) :
    (⟨some .band, none, first, second, none⟩ : GivenRegulation).settle = .ok (.band low high) ↔
      first = some low ∧ second = some high := by
  cases first <;> cases second <;>
    simp [GivenRegulation.settle, GivenRegulation.inferred, bind, Except.bind, pure, Except.pure,
      method]

theorem settle_feedback_iff (found : Option Gains) (gains : Gains) :
    (⟨some .feedback, none, none, none, found⟩ : GivenRegulation).settle = .ok (.feedback gains) ↔
      found = some gains := by
  cases found <;>
    simp [GivenRegulation.settle, GivenRegulation.inferred, bind, Except.bind, pure, Except.pure,
      method]

/-- A regulation is read back exactly if its numbers are. -/
theorem reread_iff (regulation : Regulation) :
    ofDocument (Json.reread regulation.toDocument) = .ok regulation ↔ regulation.ReadsBack := by
  rw [ofDocument_eq_ok_iff]
  cases regulation with
  | constant percent =>
    rw [given_constant]
    exact iff_of_true ⟨_, rfl, rfl⟩ trivial
  | band low high =>
    have hnumber : ∀ x : Float32, Document.ReadsBack x ↔
        optional? binary32? (some (Json.reread (ofBinary32 x))) = some (some x) :=
      fun x => (readsBack_iff x).trans (optional?_eq_some_iff rfl _ x).symm
    rw [given_band, ReadsBack, hnumber, hnumber]
    simp only [Option.bind_eq_bind, Option.bind_eq_some_iff, Option.pure_def, Option.some.injEq]
    constructor
    · rintro ⟨given, ⟨first, hfirst, second, hsecond, rfl⟩, hsettle⟩
      obtain ⟨rfl, rfl⟩ := (settle_band_iff first second low high).mp hsettle
      exact ⟨hfirst, hsecond⟩
    · rintro ⟨hlow, hhigh⟩
      exact ⟨_, ⟨_, hlow, _, hhigh, rfl⟩, (settle_band_iff _ _ low high).mpr ⟨rfl, rfl⟩⟩
  | feedback gains =>
    rw [given_feedback, ReadsBack, ← Gains.reread_iff, ← optional?_eq_some_iff gains_null]
    simp only [Option.bind_eq_bind, Option.bind_eq_some_iff, Option.pure_def, Option.some.injEq]
    constructor
    · rintro ⟨given, ⟨found, hfound, rfl⟩, hsettle⟩
      rw [hfound, (settle_feedback_iff found gains).mp hsettle]
    · intro hfound
      exact ⟨_, ⟨_, hfound, rfl⟩, (settle_feedback_iff _ gains).mpr rfl⟩

end Regulation

/-! ## Steps -/

namespace Step

/-- All numbers are read back. -/
structure ReadsBack (step : Step) : Prop where
  target : ∀ x ∈ step.target, Document.ReadsBack x
  phases : ∀ channel, ∀ regulation ∈ step.phases.get channel, regulation.ReadsBack

theorem readsBack_iff (step : Step) : step.ReadsBack ↔
    (∀ x ∈ step.target, Document.ReadsBack x) ∧
      (∀ regulation ∈ step.phases.heater, regulation.ReadsBack) ∧
      (∀ regulation ∈ step.phases.fan, regulation.ReadsBack) ∧
      ∀ regulation ∈ step.phases.humidifier, regulation.ReadsBack := by
  constructor
  · intro h
    exact ⟨h.target, h.phases .heater, h.phases .fan, h.phases .humidifier⟩
  · rintro ⟨htarget, hheater, hfan, hhumidifier⟩
    refine ⟨htarget, fun channel => ?_⟩
    cases channel
    · exact hheater
    · exact hfan
    · exact hhumidifier

instance (step : Step) : Decidable step.ReadsBack := decidable_of_iff _ step.readsBack_iff.symm

theorem slots?_reread (step : Step) :
    (Json.reread step.toDocument).slots? [⟨"name", false⟩, ⟨"type", false⟩,
      ⟨"temperature_target", true⟩, ⟨"runtime", true⟩, ⟨"heater", true⟩, ⟨"fan", true⟩,
      ⟨"humidifier", true⟩] =
    some [some (.text step.name), some (.text step.kind.label),
      step.target.map fun x => Json.reread (ofBinary32 x),
      step.runtime.map fun seconds => Json.reread (ofWhole seconds.toNat),
      step.phases.heater.map fun r => Json.reread r.toDocument,
      step.phases.fan.map fun r => Json.reread r.toDocument,
      step.phases.humidifier.map fun r => Json.reread r.toDocument] := by
  have hgiven : step.toDocument = .record (present [("name", some (.text step.name)),
      ("type", some (.text step.kind.label)), ("temperature_target", step.target.map ofBinary32),
      ("runtime", step.runtime.map fun seconds => ofWhole seconds.toNat),
      ("heater", step.phases.heater.map Regulation.toDocument),
      ("fan", step.phases.fan.map Regulation.toDocument),
      ("humidifier", step.phases.humidifier.map Regulation.toDocument)]) := by
    simp only [present_cons_some, present_cons_map]
    simp [toDocument, Channel.all, PerChannel.get, Channel.label, present]
  rw [Document.slots?_reread _ hgiven rfl (by simp)]
  simp [Json.reread, Function.comp_def]

theorem ofLabel?_reread (kind : StepKind) :
    required? (fun d => d.label? >>= StepKind.ofLabel?) (some (.text kind.label)) = some kind := by
  cases kind <;> decide

/-- A phase is read back, set or not. -/
theorem settable_iff (phase : Option Regulation) :
    settable Regulation.ofDocument (phase.map fun r => Json.reread r.toDocument) = .ok phase ↔
      ∀ regulation ∈ phase, regulation.ReadsBack := by
  cases phase with
  | none => simp [settable]
  | some regulation =>
    obtain ⟨fields, hfields⟩ : ∃ fields, Json.reread regulation.toDocument = .record fields :=
      ⟨_, rfl⟩
    have hset : settable Regulation.ofDocument (some (.record fields)) =
        some <$> Regulation.ofDocument (.record fields) := rfl
    simp only [Option.map_some, Option.mem_def, Option.some.injEq, forall_eq',
      ← Regulation.reread_iff, hfields, hset]
    cases Regulation.ofDocument (.record fields) <;> simp [Functor.map, Except.map]

/-- A step is read back exactly if its numbers are. -/
theorem reread_iff (step : Step) :
    ofDocument (Json.reread step.toDocument) = .ok step ↔ step.ReadsBack := by
  have hslots := step.slots?_reread
  have hname : required? text? (some (.text step.name)) = some step.name := rfl
  have hkind := ofLabel?_reread step.kind
  have hruntime : optional? duration?
      (step.runtime.map fun seconds => Json.reread (ofWhole seconds.toNat)) = some step.runtime :=
    (optional?_map rfl _ step.runtime).mpr fun seconds _ => duration?_reread seconds
  have hnumber : optional? binary32? (step.target.map fun x => Json.reread (ofBinary32 x)) =
      some step.target ↔ ∀ x ∈ step.target, Document.ReadsBack x := by
    rw [optional?_map rfl]
    simp only [Document.readsBack_iff]
  rw [readsBack_iff, ← hnumber]
  simp only [← settable_iff]
  obtain ⟨name, kind, target, runtime, heater, fan, humidifier⟩ := step
  simp only [ofDocument, hslots, bind_eq_ok, readable_eq_ok, Option.some.injEq,
    exists_eq_left', hname, hkind, hruntime, pure, Except.pure, Except.ok.injEq, mk.injEq,
    PerChannel.mk.injEq, true_and]
  constructor
  · rintro ⟨_, htarget, _, hheater, _, hfan, _, hhumidifier, rfl, rfl, rfl, rfl⟩
    exact ⟨htarget, hheater, hfan, hhumidifier⟩
  · rintro ⟨htarget, hheater, hfan, hhumidifier⟩
    exact ⟨_, htarget, _, hheater, _, hfan, _, hhumidifier, rfl, rfl, rfl, rfl⟩

end Step

/-! ## Programs -/

namespace Program

/-- All numbers are read back. -/
def ReadsBack (program : Program) : Prop := ∀ step ∈ program.steps, step.ReadsBack

instance (program : Program) : Decidable program.ReadsBack :=
  inferInstanceAs (Decidable (∀ step ∈ program.steps, step.ReadsBack))

theorem slots?_reread (program : Program) :
    (Json.reread program.toDocument).slots? [⟨"name", false⟩, ⟨"steps", false⟩,
      ⟨"max_runtime", true⟩] =
    some [some (.text program.name),
      some (.list (program.steps.map fun step => Json.reread step.toDocument)),
      program.maxRuntime.map fun seconds => Json.reread (ofWhole seconds.toNat)] := by
  have hgiven : program.toDocument = .record (present [("name", some (.text program.name)),
      ("steps", some (.list (program.steps.map Step.toDocument))),
      ("max_runtime", program.maxRuntime.map fun seconds => ofWhole seconds.toNat)]) := by
    simp only [present_cons_some, present_cons_map]
    simp [toDocument, present]
  rw [Document.slots?_reread _ hgiven rfl (by simp)]
  simp [Json.reread, Json.rereadItems_eq, Function.comp_def]

/-- A program is read back exactly if its numbers are. -/
theorem reread_iff (program : Program) :
    ofDocument (Json.reread program.toDocument) = .ok program ↔ program.ReadsBack := by
  have hslots := program.slots?_reread
  have hname : required? text? (some (.text program.name)) = some program.name := rfl
  have hitems : ∀ items : List Document, required? items? (some (.list items)) = some items :=
    fun _ => rfl
  have hruntime : optional? duration?
      (program.maxRuntime.map fun seconds => Json.reread (ofWhole seconds.toNat)) =
        some program.maxRuntime :=
    (optional?_map rfl _ program.maxRuntime).mpr fun seconds _ => duration?_reread seconds
  have hsteps : (program.steps.map fun step => Json.reread step.toDocument).mapM Step.ofDocument =
      .ok program.steps ↔ program.ReadsBack := by
    rw [mapM_eq_ok_iff]
    exact forall₂_congr fun step _ => step.reread_iff
  rw [← hsteps]
  obtain ⟨name, steps, maxRuntime⟩ := program
  simp only [ofDocument, hslots, bind_eq_ok, readable_eq_ok, Option.some.injEq,
    exists_eq_left', hname, hitems, hruntime, pure, Except.pure, Except.ok.injEq, mk.injEq,
    true_and, and_true, exists_eq_right]

end Program

/-! ## Defaults -/

namespace Defaults

/-- All numbers are read back. -/
structure ReadsBack (defaults : Defaults) : Prop where
  gains : ∀ entry ∈ defaults.gains, entry.2.ReadsBack
  low : Document.ReadsBack defaults.lowDelta
  high : Document.ReadsBack defaults.highDelta

instance (defaults : Defaults) : Decidable defaults.ReadsBack :=
  decidable_of_iff ((∀ entry ∈ defaults.gains, entry.2.ReadsBack) ∧
      Document.ReadsBack defaults.lowDelta ∧ Document.ReadsBack defaults.highDelta)
    ⟨fun ⟨hgains, hlow, hhigh⟩ => ⟨hgains, hlow, hhigh⟩, fun h => ⟨h.gains, h.low, h.high⟩⟩

/-- The gains are a map: sorted by name, and no name comes twice. -/
def Sorted (defaults : Defaults) : Prop :=
  defaults.gains.Pairwise fun first second => first.1 < second.1

instance (defaults : Defaults) : Decidable defaults.Sorted :=
  inferInstanceAs (Decidable (List.Pairwise _ _))

theorem dictionary?_reread {defaults : Defaults} (hsorted : defaults.Sorted)
    (h : ∀ entry ∈ defaults.gains, entry.2.ReadsBack) :
    dictionary? (Gains.ofDocument? .json) (Json.reread
      (.record (defaults.gains.map fun entry => (entry.1, entry.2.toDocument)))) =
        some defaults.gains := by
  have hentries : ∀ gains : List (String × Gains), (∀ entry ∈ gains, entry.2.ReadsBack) →
      (Json.rereadFields (gains.map fun entry => (entry.1, entry.2.toDocument))).mapM
        (fun entry => (entry.1, ·) <$> Gains.ofDocument? .json entry.2) = some gains := by
    intro gains
    induction gains with
    | nil => exact fun _ => rfl
    | cons entry rest ih =>
      intro hall
      obtain ⟨hentry, hrest⟩ := List.forall_mem_cons.mp hall
      simp only [List.map_cons, Json.rereadFields, List.mapM_cons, ih hrest,
        (Gains.reread_iff entry.2).mpr hentry]
      rfl
  have hfold := foldl_putEntry defaults.gains [] hsorted
  simp only [dictionary?, Json.reread, entries?, hentries _ h, Option.bind_eq_bind,
    Option.bind_some, Option.pure_def, hfold, List.nil_append]

theorem slots?_reread (defaults : Defaults) :
    (Json.reread defaults.toDocument).slots? [⟨"pid_settings", true⟩,
      ⟨"min_delta_heating", false⟩, ⟨"max_delta_heating", false⟩] =
    some [some (Json.reread
        (.record (defaults.gains.map fun entry => (entry.1, entry.2.toDocument)))),
      some (Json.reread (ofBinary32 defaults.lowDelta)),
      some (Json.reread (ofBinary32 defaults.highDelta))] :=
  Document.slots?_reread [("pid_settings",
      some (.record (defaults.gains.map fun entry => (entry.1, entry.2.toDocument)))),
    ("min_delta_heating", some (ofBinary32 defaults.lowDelta)),
    ("max_delta_heating", some (ofBinary32 defaults.highDelta))] rfl rfl (by simp)

/-- Defaults whose gains are a map are read back if their numbers are. -/
theorem reread {defaults : Defaults} (hsorted : defaults.Sorted) (h : defaults.ReadsBack) :
    ofDocument? .json (Json.reread defaults.toDocument) = some defaults := by
  have hgains : defaulted? [] (dictionary? (Gains.ofDocument? .json)) (some (Json.reread
      (.record (defaults.gains.map fun entry => (entry.1, entry.2.toDocument))))) =
        some defaults.gains :=
    dictionary?_reread hsorted h.gains
  have hlow := (readsBack_iff _).mp h.low
  have hhigh := (readsBack_iff _).mp h.high
  simp only [ofDocument?, Format.slots?, slots?_reread, Option.bind_eq_bind, Option.bind_some,
    hgains, required?, hlow, hhigh, Option.pure_def]

end Defaults
end DryKiln
