-- What is read of a document that does not hold NaN. Its numbers are passed on as they stand, so
-- the targets and the bands of a program can be compared: of two of them one is at most the other.
import DryKiln.Proofs.Decimal.Binary32
import DryKiln.Proofs.Document.Programs
import DryKiln.Proofs.Json.Ordinary

namespace DryKiln
namespace Document

/-! ## Slots -/

theorem ordinary_of_single? {name : String} {fields : List (String × Document)}
    {slot : Option Document} (hfields : ∀ field ∈ fields, field.2.Ordinary)
    (h : single? name fields = some slot) : ∀ d ∈ slot, d.Ordinary := by
  unfold single? at h
  split at h
  · cases h
    exact nofun
  · rename_i field hfound
    cases h
    rintro _ ⟨⟩
    have hmem : field ∈ fields.filter fun field => field.1 == name := by
      rw [hfound]
      exact List.mem_singleton_self field
    exact hfields field (List.mem_filter.mp hmem).1
  · cases h

theorem ordinary_of_positional? {fields : List Field} {items : List Document}
    {slots : List (Option Document)} (hitems : ∀ d ∈ items, d.Ordinary)
    (h : positional? fields items = some slots) : ∀ slot ∈ slots, ∀ d ∈ slot, d.Ordinary := by
  induction fields generalizing items slots with
  | nil =>
    cases items with
    | nil =>
      cases h
      simp
    | cons item items => cases h
  | cons field fields ih =>
    cases items with
    | nil =>
      rw [positional?] at h
      split at h
      · obtain ⟨rest, hrest, rfl⟩ := Option.map_eq_some_iff.mp h
        exact List.forall_mem_cons.mpr ⟨nofun, ih hitems hrest⟩
      · cases h
    | cons item items =>
      obtain ⟨hitem, hothers⟩ := List.forall_mem_cons.mp hitems
      obtain ⟨rest, hrest, rfl⟩ := Option.map_eq_some_iff.mp h
      refine List.forall_mem_cons.mpr ⟨?_, ih hothers hrest⟩
      rintro _ ⟨⟩
      exact hitem

/-- Whatever fields are asked for, what the document gives for them is ordinary. -/
theorem Ordinary.slots? {d : Document} (hd : d.Ordinary) {fields : List Field}
    {slots : List (Option Document)} (h : d.slots? fields = some slots) :
    ∀ slot ∈ slots, ∀ value ∈ slot, value.Ordinary := by
  cases hd with
  | record hgiven =>
    rw [Document.slots?] at h
    induction fields generalizing slots with
    | nil =>
      cases h
      simp
    | cons field fields ih =>
      simp only [List.mapM_cons, Option.bind_eq_bind, Option.bind_eq_some_iff, Option.pure_def,
        Option.some.injEq] at h
      obtain ⟨slot, hslot, rest, hrest, rfl⟩ := h
      exact List.forall_mem_cons.mpr ⟨ordinary_of_single? hgiven hslot, ih hrest⟩
  | list hitems => exact ordinary_of_positional? hitems h
  | _ => cases h

/-! ## Values -/

theorem Ordinary.binary32? {d : Document} (hd : d.Ordinary) {x : Float32}
    (h : d.binary32? = some x) : x.isNaN = false := by
  cases hd with
  | number hvalue => exact Numeral.isNaN_toBinary32? hvalue h
  | _ => cases h

/-- A number that may be missing is no NaN if it is there. -/
theorem isNaN_of_optional? {slot : Option Document} (hslot : ∀ d ∈ slot, d.Ordinary)
    {x : Float32} (h : optional? binary32? slot = some (some x)) : x.isNaN = false := by
  unfold optional? at h
  split at h
  · cases h
  · cases h
  · rename_i d _
    obtain ⟨y, hread, heq⟩ := Option.map_eq_some_iff.mp h
    cases heq
    exact (hslot d rfl).binary32? hread

theorem Ordinary.items? {d : Document} (hd : d.Ordinary) {items : List Document}
    (h : d.items? = some items) : ∀ item ∈ items, item.Ordinary := by
  cases hd with
  | list hitems =>
    cases h
    exact hitems
  | _ => cases h

end Document

open Document

/-! ## Programs -/

/-- The ends of a band can be compared. -/
def Regulation.IsComparable (regulation : Regulation) : Prop :=
  ∀ low high, regulation = .band low high → low.isNaN = false ∧ high.isNaN = false

/-- The numbers of a step that are checked can be compared. -/
structure Step.IsComparable (step : Step) : Prop where
  target : ∀ target, step.target = some target → target.isNaN = false
  phases : ∀ channel regulation, step.phases.get channel = some regulation →
    regulation.IsComparable

/-- A band is settled from the two ends that are given. -/
theorem GivenRegulation.ends_of_settle {given : GivenRegulation} {low high : Float32}
    (h : given.settle = .ok (.band low high)) : given.low = some low ∧ given.high = some high := by
  have hinferred : given.inferred = .ok (.band low high) := by
    obtain ⟨regulation, hinferred, hnamed⟩ := bind_eq_ok.mp h
    split at hnamed
    · split at hnamed
      · cases hnamed
        exact hinferred
      · cases hnamed
    · cases hnamed
      exact hinferred
  unfold GivenRegulation.inferred at hinferred
  split at hinferred
  case h_2 _ _ _ _ hlow hhigh _ =>
    cases hinferred
    exact ⟨hlow, hhigh⟩
  all_goals cases hinferred

theorem Regulation.isComparable_of_ofDocument {d : Document} (hd : d.Ordinary)
    {regulation : Regulation} (h : Regulation.ofDocument d = .ok regulation) :
    regulation.IsComparable := by
  rintro low high rfl
  obtain ⟨given, hgiven, hsettle⟩ := (Regulation.ofDocument_eq_ok_iff d _).mp h
  obtain ⟨hlow, hhigh⟩ := GivenRegulation.ends_of_settle hsettle
  rw [GivenRegulation.ofDocument?, Option.bind_eq_bind, Option.bind_eq_some_iff] at hgiven
  obtain ⟨slots, hslots, hfields⟩ := hgiven
  have hordinary := hd.slots? hslots
  split at hfields
  · rename_i method percent first second gains
    simp only [List.mem_cons, List.not_mem_nil, or_false, forall_eq_or_imp, forall_eq] at hordinary
    obtain ⟨_, _, hfirst, hsecond, _⟩ := hordinary
    simp only [Option.bind_eq_bind, Option.bind_eq_some_iff, Option.pure_def,
      Option.some.injEq] at hfields
    obtain ⟨_, _, _, _, _, hreadFirst, _, hreadSecond, _, _, rfl⟩ := hfields
    cases hlow
    cases hhigh
    exact ⟨isNaN_of_optional? hfirst hreadFirst, isNaN_of_optional? hsecond hreadSecond⟩
  · cases hfields

theorem isComparable_of_settable {slot : Option Document} (hslot : ∀ d ∈ slot, d.Ordinary)
    {phase : Option Regulation} (h : settable Regulation.ofDocument slot = .ok phase) :
    ∀ regulation, phase = some regulation → regulation.IsComparable := by
  rintro regulation rfl
  unfold settable at h
  split at h
  · cases h
  · cases h
  · rename_i d _
    rw [map_eq_pure_bind, bind_eq_ok] at h
    obtain ⟨found, hfound, heq⟩ := h
    cases heq
    exact Regulation.isComparable_of_ofDocument (hslot d rfl) hfound

theorem Step.isComparable_of_ofDocument {d : Document} (hd : d.Ordinary) {step : Step}
    (h : Step.ofDocument d = .ok step) : step.IsComparable := by
  rw [Step.ofDocument, bind_eq_ok] at h
  obtain ⟨slots, hslots, hfields⟩ := h
  have hordinary := hd.slots? (readable_eq_ok.mp hslots)
  split at hfields
  · simp only [List.mem_cons, List.not_mem_nil, or_false, forall_eq_or_imp, forall_eq] at hordinary
    obtain ⟨_, _, htargetSlot, _, hheaterSlot, hfanSlot, hhumidifierSlot⟩ := hordinary
    simp only [bind_eq_ok, readable_eq_ok, pure, Except.pure, Except.ok.injEq] at hfields
    obtain ⟨_, _, _, _, target, htarget, _, _, heater, hheater, fan, hfan, humidifier, hhumidifier,
      rfl⟩ := hfields
    refine ⟨?_, ?_⟩
    · rintro x rfl
      exact isNaN_of_optional? htargetSlot htarget
    · intro channel
      cases channel with
      | heater => exact isComparable_of_settable hheaterSlot hheater
      | fan => exact isComparable_of_settable hfanSlot hfan
      | humidifier => exact isComparable_of_settable hhumidifierSlot hhumidifier
  · cases hfields

theorem forall_of_mapM_eq_ok {ε α β : Type} {f : α → Except ε β} {P : α → Prop} {Q : β → Prop}
    (hf : ∀ a b, P a → f a = .ok b → Q b) {as : List α} {bs : List β} (has : ∀ a ∈ as, P a)
    (h : as.mapM f = .ok bs) : ∀ b ∈ bs, Q b := by
  induction as generalizing bs with
  | nil =>
    cases h
    simp
  | cons a as ih =>
    obtain ⟨ha, hrest⟩ := List.forall_mem_cons.mp has
    simp only [List.mapM_cons, bind_eq_ok, pure, Except.pure, Except.ok.injEq] at h
    obtain ⟨b, hb, rest, hrests, rfl⟩ := h
    exact List.forall_mem_cons.mpr ⟨hf a b ha hb, ih hrest hrests⟩

theorem Program.isComparable_of_ofDocument {d : Document} (hd : d.Ordinary) {program : Program}
    (h : Program.ofDocument d = .ok program) : ∀ step ∈ program.steps, step.IsComparable := by
  rw [Program.ofDocument, bind_eq_ok] at h
  obtain ⟨slots, hslots, hfields⟩ := h
  have hordinary := hd.slots? (readable_eq_ok.mp hslots)
  split at hfields
  · rename_i name steps maxRuntime
    simp only [List.mem_cons, List.not_mem_nil, or_false, forall_eq_or_imp, forall_eq] at hordinary
    simp only [bind_eq_ok, readable_eq_ok, pure, Except.pure, Except.ok.injEq] at hfields
    obtain ⟨_, _, items, hitems, _, hsteps, _, _, rfl⟩ := hfields
    cases steps with
    | none => cases hitems
    | some given =>
      have hgiven : ∀ item ∈ items, item.Ordinary := (hordinary.2.1 given rfl).items? hitems
      exact forall_of_mapM_eq_ok (fun _ _ hitem hstep => Step.isComparable_of_ofDocument hitem hstep)
        hgiven hsteps
  · cases hfields

/-- The program that a JSON text holds can be compared wherever it is checked. -/
theorem Program.isComparable_of_read? {text : String} {program : Program}
    (h : (readable (Json.read? text) >>= Program.ofDocument) = .ok program) :
    ∀ step ∈ program.steps, step.IsComparable := by
  obtain ⟨d, hread, hprogram⟩ := bind_eq_ok.mp h
  exact Program.isComparable_of_ofDocument (Json.ordinary_of_read? (readable_eq_ok.mp hread)) hprogram

end DryKiln
