-- What a regulation is read from. The settings of exactly one method have to be there, null counts
-- as missing, and a method that is named has to be that one; then the result is made of its values
-- alone. The order of the keys and keys that nobody knows make no difference.
import DryKiln.Proofs.Document.Programs

namespace DryKiln
namespace Document

/-! ## Keys of a record -/

/-- There is such a value for the key. -/
def Has (fields : List (String × Document)) (key : String) (p : Document → Prop) : Prop :=
  ∃ d, (key, d) ∈ fields ∧ p d

/-- There is a value for the key; null is none. -/
def Gives (fields : List (String × Document)) (key : String) : Prop :=
  Has fields key (· ≠ .null)

theorem Has.gives {fields : List (String × Document)} {key : String} {p : Document → Prop}
    (h : Has fields key p) (hnull : ¬ p .null) : Gives fields key := by
  obtain ⟨d, hmem, hd⟩ := h
  refine ⟨d, hmem, ?_⟩
  rintro rfl
  exact hnull hd

/-- The key does not come twice. -/
def AtMostOnce (fields : List (String × Document)) (key : String) : Prop :=
  (fields.map Prod.fst).count key ≤ 1

instance (fields : List (String × Document)) (key : String) : Decidable (AtMostOnce fields key) :=
  inferInstanceAs (Decidable (_ ≤ 1))

theorem has_cons_iff {fields : List (String × Document)} {key name : String} {value : Document}
    {p : Document → Prop} :
    Has ((name, value) :: fields) key p ↔ key = name ∧ p value ∨ Has fields key p := by
  simp only [Has, List.mem_cons, Prod.mk.injEq]
  constructor
  · rintro ⟨d, ⟨rfl, rfl⟩ | hmem, hd⟩
    · exact .inl ⟨rfl, hd⟩
    · exact .inr ⟨d, hmem, hd⟩
  · rintro (⟨rfl, hd⟩ | ⟨d, hmem, hd⟩)
    · exact ⟨value, .inl ⟨rfl, rfl⟩, hd⟩
    · exact ⟨d, .inr hmem, hd⟩

theorem AtMostOnce.of_cons {fields : List (String × Document)} {key : String}
    {field : String × Document} (h : AtMostOnce (field :: fields) key) : AtMostOnce fields key :=
  Nat.le_trans List.count_le_count_cons h

theorem AtMostOnce.cons {fields : List (String × Document)} {key name : String}
    (h : AtMostOnce fields key) (hnew : key = name → key ∉ fields.map Prod.fst)
    (value : Document) : AtMostOnce ((name, value) :: fields) key := by
  rw [AtMostOnce, List.map_cons]
  by_cases hkey : key = name
  · rw [← hkey, List.count_cons_self, List.count_eq_zero_of_not_mem (hnew hkey)]
  · rw [List.count_cons_of_ne (Ne.symm hkey)]
    exact h

theorem atMostOnce_congr {fields others : List (String × Document)} (h : fields.Perm others)
    (key : String) : AtMostOnce fields key ↔ AtMostOnce others key := by
  rw [AtMostOnce, AtMostOnce, (h.map Prod.fst).count_eq]

theorem length_filter_key (fields : List (String × Document)) (key : String) :
    (fields.filter fun field => field.1 == key).length = (fields.map Prod.fst).count key := by
  rw [List.count, List.countP_map, List.countP_eq_length_filter]
  rfl

/-- The slot of a field holds what the record has for it. -/
theorem single?_eq_some_iff {key : String} {fields : List (String × Document)}
    {slot : Option Document} : single? key fields = some slot ↔
      (fields.filter fun field => field.1 == key) = slot.toList.map (key, ·) := by
  unfold single?
  split
  · rename_i hnone
    rw [hnone]
    cases slot <;> simp
  · rename_i field hone
    have hkey : field.1 = key := by
      have hmem : field ∈ fields.filter fun field => field.1 == key := by
        rw [hone]
        exact List.mem_singleton_self field
      exact eq_of_beq (List.mem_filter.mp hmem).2
    rw [hone]
    cases slot <;> simp [← hkey, Prod.ext_iff]
  · rename_i hempty hmany
    refine iff_of_false nofun fun hslot => ?_
    cases slot with
    | none => exact hempty hslot
    | some d => exact hmany _ hslot

theorem atMostOnce_iff {key : String} {fields : List (String × Document)} :
    AtMostOnce fields key ↔ ∃ slot, single? key fields = some slot := by
  rw [AtMostOnce, ← length_filter_key]
  unfold single?
  split
  · rename_i hnone
    simp [hnone]
  · rename_i field hone
    simp [hone]
  · rename_i hempty hmany
    refine iff_of_false (fun hlength => ?_) nofun
    cases hfilter : fields.filter fun field => field.1 == key with
    | nil => exact hempty hfilter
    | cons field rest =>
      rw [hfilter, List.length_cons] at hlength
      obtain rfl : rest = [] := List.eq_nil_of_length_eq_zero (by omega)
      exact hmany field hfilter

theorem mem_of_single? {key : String} {fields : List (String × Document)} {slot : Option Document}
    (h : single? key fields = some slot) (d : Document) : (key, d) ∈ fields ↔ d ∈ slot := by
  have hfilter : (key, d) ∈ fields ↔
      (key, d) ∈ fields.filter fun field => field.1 == key := by simp
  rw [hfilter, single?_eq_some_iff.mp h]
  simp

theorem optional?_eq_none_iff {α : Type} {read : Document → Option α} {slot : Option Document} :
    optional? read slot = some none ↔ ∀ d ∈ slot, d = .null := by
  match slot with
  | none => simp [optional?]
  | some .null => simp [optional?]
  | some (.flag _) | some (.number _) | some (.text _) | some (.list _) | some (.record _)
  | some .other | some .invalid => simp [optional?]

/-- What a field that may be missing comes to. -/
def Holds {α : Type} (read : Document → Option α) (fields : List (String × Document))
    (key : String) (value : Option α) : Prop :=
  AtMostOnce fields key ∧ match value with
    | none => ¬ Gives fields key
    | some x => Has fields key (read · = some x)

theorem optional?_single?_iff {α : Type} {read : Document → Option α} (hnull : read .null = none)
    {fields : List (String × Document)} {key : String} {value : Option α} :
    (∃ slot, single? key fields = some slot ∧ optional? read slot = some value) ↔
      Holds read fields key value := by
  have hvalue : ∀ slot, single? key fields = some slot →
      (optional? read slot = some value ↔ match value with
        | none => ¬ Gives fields key
        | some x => Has fields key (read · = some x)) := by
    intro slot hslot
    simp only [Gives, Has, mem_of_single? hslot]
    cases value with
    | none => simp [optional?_eq_none_iff]
    | some x =>
      cases slot with
      | none => simp [optional?]
      | some d => simp [optional?_eq_some_iff hnull]
  unfold Holds
  rw [atMostOnce_iff]
  constructor
  · rintro ⟨slot, hslot, hread⟩
    exact ⟨⟨slot, hslot⟩, (hvalue slot hslot).mp hread⟩
  · rintro ⟨⟨slot, hslot⟩, hholds⟩
    exact ⟨slot, hslot, (hvalue slot hslot).mpr hholds⟩

theorem slots?_record_iff {given : List (String × Document)} {fields : List Field}
    {slots : List (Option Document)} : (record given).slots? fields = some slots ↔
      List.Forall₂ (fun field slot => single? field.name given = some slot) fields slots := by
  rw [slots?]
  induction fields generalizing slots with
  | nil => cases slots <;> simp
  | cons field fields ih =>
    rw [List.mapM_cons, List.forall₂_cons_left_iff]
    simp only [Option.bind_eq_bind, Option.pure_def, Option.bind_eq_some_iff, Option.some.injEq, ih]
    constructor
    · rintro ⟨slot, hslot, rest, hrest, rfl⟩
      exact ⟨slot, rest, hslot, hrest, rfl⟩
    · rintro ⟨slot, rest, hslot, hrest, rfl⟩
      exact ⟨slot, hslot, rest, hrest, rfl⟩

/-- In a list form that has no trailing fields, each field is given. -/
theorem length_of_positional? {fields : List Field}
    (hfields : ∀ field ∈ fields, field.mayTrail = false) {items : List Document}
    {slots : List (Option Document)} (h : positional? fields items = some slots) :
    items.length = fields.length := by
  induction fields generalizing items slots with
  | nil =>
    cases items with
    | nil => rfl
    | cons item items => simp [positional?] at h
  | cons field fields ih =>
    rw [List.forall_mem_cons] at hfields
    cases items with
    | nil => simp [positional?, hfields.1] at h
    | cons item items =>
      rw [positional?, Option.map_eq_map, Option.map_eq_some_iff] at h
      obtain ⟨rest, hrest, -⟩ := h
      rw [List.length_cons, List.length_cons, ih hfields.2 hrest]

theorem required?_eq_some_iff {α : Type} {read : Document → Option α} {slot : Option Document}
    {value : α} : required? read slot = some value ↔ ∃ d ∈ slot, read d = some value := by
  cases slot <;> simp [required?]

theorem required?_single?_iff {α : Type} {read : Document → Option α}
    {fields : List (String × Document)} {key : String} {value : α} :
    (∃ slot, single? key fields = some slot ∧ required? read slot = some value) ↔
      AtMostOnce fields key ∧ Has fields key (read · = some value) := by
  rw [atMostOnce_iff]
  constructor
  · rintro ⟨slot, hslot, hread⟩
    simp only [Has, mem_of_single? hslot]
    exact ⟨⟨slot, hslot⟩, required?_eq_some_iff.mp hread⟩
  · rintro ⟨⟨slot, hslot⟩, hthere⟩
    simp only [Has, mem_of_single? hslot] at hthere
    exact ⟨slot, hslot, required?_eq_some_iff.mpr hthere⟩

/-! ## Values -/

/-- The value is written as a number. -/
def IsNumber (d : Document) (x : Float32) : Prop := ∃ n, d = .number n ∧ n.toBinary32? = some x

theorem not_isNumber_null (x : Float32) : ¬ IsNumber .null x := by simp [IsNumber]

theorem binary32?_eq_some_iff {d : Document} {x : Float32} :
    d.binary32? = some x ↔ d.IsNumber x := by
  cases d <;> simp [binary32?, IsNumber]

theorem percent?_eq_some_iff {d : Document} {percent : UInt8} :
    d.percent? = some percent ↔ d = ofWhole percent.toNat := by
  have hlt := percent.toNat_lt
  cases d with
  | number n =>
    cases n with
    | whole n =>
      simp only [percent?, whole?, ofWhole, Option.map_eq_some_iff, Option.ite_none_right_eq_some,
        Option.some.injEq, number.injEq, Numeral.whole.injEq]
      constructor
      · rintro ⟨_, ⟨hrange, rfl⟩, rfl⟩
        rw [UInt8.toNat_ofNat']
        omega
      · rintro rfl
        exact ⟨_, ⟨by omega, rfl⟩, by simp⟩
    | _ => simp [percent?, whole?, ofWhole]
  | _ => simp [percent?, whole?, ofWhole]

theorem label?_eq_some_iff {d : Document} {label : String} :
    d.label? = some label ↔ d = .text label ∨ d = .record [(label, .null)] := by
  unfold label?
  split
  · simp
  · simp
  · simp_all

end Document

open Document

/-- The keys that are looked at. -/
def Regulation.keys : List String := ["type", "power", "min_delta", "max_delta", "pid"]

namespace Method

theorem ofLabel?_eq_some_iff {label : String} {method : Method} :
    ofLabel? label = some method ↔ label = method.label := by
  constructor
  · intro h
    have hlabel := List.find?_some h
    exact (eq_of_beq hlabel).symm
  · rintro rfl
    cases method <;> decide

/-- The value names the method. -/
def IsNamedBy (method : Method) (d : Document) : Prop :=
  d = .text method.label ∨ d = .record [(method.label, .null)]

theorem label?_bind_ofLabel?_iff {d : Document} {method : Method} :
    (d.label? >>= ofLabel?) = some method ↔ method.IsNamedBy d := by
  simp only [Option.bind_eq_bind, Option.bind_eq_some_iff, ofLabel?_eq_some_iff, exists_eq_right,
    label?_eq_some_iff, IsNamedBy]

theorem IsNamedBy.unique {method named : Method} {d : Document} (h : method.IsNamedBy d)
    (hnamed : named.IsNamedBy d) : method = named :=
  Option.some.inj <|
    (label?_bind_ofLabel?_iff.mpr h).symm.trans (label?_bind_ofLabel?_iff.mpr hnamed)

/-- The keys of a method's settings. -/
def keys : Method → List String
  | constant => ["power"]
  | band => ["min_delta", "max_delta"]
  | feedback => ["pid"]

theorem mem_keys {method : Method} :
    ∀ key ∈ method.keys, key ∈ Regulation.keys ∧ key ≠ "type" := by
  cases method <;> decide

/-- All settings of this method are given, and none of another one. -/
def IsOnlyIn (method : Method) (fields : List (String × Document)) : Prop :=
  (∀ key ∈ method.keys, Gives fields key) ∧
    ∀ other ≠ method, ∀ key ∈ other.keys, ¬ Gives fields key

/-- The method is named, or none is. -/
def MayBeIn (method : Method) (fields : List (String × Document)) : Prop :=
  ∀ d, ("type", d) ∈ fields → d ≠ .null → method.IsNamedBy d

theorem mayBeIn_iff {method : Method} {fields : List (String × Document)} :
    (∃ named : Option Method, (∀ other ∈ named, other = method) ∧
      Holds (fun d => d.label? >>= ofLabel?) fields "type" named) ↔
        AtMostOnce fields "type" ∧ method.MayBeIn fields := by
  constructor
  · rintro ⟨none | named, hsame, honce, hvalue⟩
    · refine ⟨honce, fun d hd hnull => absurd ⟨d, hd, hnull⟩ hvalue⟩
    · obtain rfl := hsame named rfl
      obtain ⟨d, hd, hread⟩ := hvalue
      refine ⟨honce, fun d' hd' _ => ?_⟩
      obtain ⟨slot, hslot⟩ := atMostOnce_iff.mp honce
      rw [mem_of_single? hslot] at hd hd'
      cases hd.symm.trans hd'
      exact label?_bind_ofLabel?_iff.mp hread
  · rintro ⟨honce, hnamed⟩
    by_cases hgives : Gives fields "type"
    · obtain ⟨d, hd, hnull⟩ := hgives
      exact ⟨some method, by simp, honce, d, hd, label?_bind_ofLabel?_iff.mpr (hnamed d hd hnull)⟩
    · exact ⟨none, by simp, honce, hgives⟩

theorem isOnlyIn_iff {method : Method} {fields : List (String × Document)} :
    method.IsOnlyIn fields ↔
      (Gives fields "power" ↔ method = constant) ∧ (Gives fields "min_delta" ↔ method = band) ∧
        (Gives fields "max_delta" ↔ method = band) ∧ (Gives fields "pid" ↔ method = feedback) := by
  have hall : ∀ P : Method → Prop, (∀ other, P other) ↔ P constant ∧ P band ∧ P feedback :=
    fun P => ⟨fun h => ⟨h _, h _, h _⟩, fun ⟨h₁, h₂, h₃⟩ other => by cases other <;> assumption⟩
  cases method <;> simp [IsOnlyIn, hall, keys, and_assoc] <;> tauto

end Method

namespace Gains

/-- How gains are written: as a record that has each of them once, or as the list of them. -/
inductive WrittenAs (gains : Gains) : Document → Prop
  | record {fields : List (String × Document)}
      (once : ∀ key ∈ ["kp", "ki", "kd"], AtMostOnce fields key)
      (kp : Has fields "kp" (·.IsNumber gains.kp)) (ki : Has fields "ki" (·.IsNumber gains.ki))
      (kd : Has fields "kd" (·.IsNumber gains.kd)) : WrittenAs gains (.record fields)
  | list {kp ki kd : Document} (hkp : kp.IsNumber gains.kp) (hki : ki.IsNumber gains.ki)
      (hkd : kd.IsNumber gains.kd) : WrittenAs gains (.list [kp, ki, kd])

theorem not_writtenAs_null (gains : Gains) : ¬ gains.WrittenAs .null := by rintro ⟨⟩

theorem ofDocument?_eq_some_iff {d : Document} {gains : Gains} :
    ofDocument? .json d = some gains ↔ gains.WrittenAs d := by
  cases d with
  | record fields =>
    simp only [ofDocument?, Format.slots?, Option.bind_eq_bind, Option.bind_eq_some_iff,
      Option.pure_def, slots?_record_iff]
    constructor
    · rintro ⟨_, _ | ⟨hkp, _ | ⟨hki, _ | ⟨hkd, _ | _⟩⟩⟩, hgains⟩
      simp only [Option.bind_eq_some_iff, Option.some.injEq] at hgains
      obtain ⟨kp, hkp', ki, hki', kd, hkd', rfl⟩ := hgains
      obtain ⟨hkpOnce, hkp⟩ := required?_single?_iff.mp ⟨_, hkp, hkp'⟩
      obtain ⟨hkiOnce, hki⟩ := required?_single?_iff.mp ⟨_, hki, hki'⟩
      obtain ⟨hkdOnce, hkd⟩ := required?_single?_iff.mp ⟨_, hkd, hkd'⟩
      simp only [binary32?_eq_some_iff] at hkp hki hkd
      exact .record (by simp [hkpOnce, hkiOnce, hkdOnce]) hkp hki hkd
    · rintro ⟨honce, hkp, hki, hkd⟩
      simp only [← binary32?_eq_some_iff] at hkp hki hkd
      obtain ⟨_, hkp, hkp'⟩ := required?_single?_iff.mpr ⟨honce "kp" (by simp), hkp⟩
      obtain ⟨_, hki, hki'⟩ := required?_single?_iff.mpr ⟨honce "ki" (by simp), hki⟩
      obtain ⟨_, hkd, hkd'⟩ := required?_single?_iff.mpr ⟨honce "kd" (by simp), hkd⟩
      exact ⟨_, .cons hkp (.cons hki (.cons hkd .nil)), by simp [hkp', hki', hkd']⟩
  | list items =>
    by_cases hthree : items.length = 3
    · obtain ⟨kp, ki, kd, rfl⟩ := List.length_eq_three.mp hthree
      have hread : ofDocument? .json (.list [kp, ki, kd]) =
          (do return ⟨← kp.binary32?, ← ki.binary32?, ← kd.binary32?⟩) := rfl
      simp only [hread, Option.bind_eq_bind, Option.bind_eq_some_iff, Option.pure_def,
        Option.some.injEq, binary32?_eq_some_iff]
      constructor
      · rintro ⟨_, hkp, _, hki, _, hkd, rfl⟩
        exact .list hkp hki hkd
      · rintro (_ | ⟨hkp, hki, hkd⟩)
        exact ⟨_, hkp, _, hki, _, hkd, rfl⟩
    · refine iff_of_false (fun h => hthree ?_) fun h => ?_
      · obtain ⟨slots, hslots, -⟩ := Option.bind_eq_some_iff.mp h
        exact length_of_positional? (by decide) hslots
      · cases h
        exact hthree rfl
  | _ => exact iff_of_false (fun h => Option.some_ne_none gains h.symm) (by rintro ⟨⟩)

end Gains

namespace GivenRegulation

theorem ofDocument?_record_iff {fields : List (String × Document)} {given : GivenRegulation} :
    ofDocument? (.record fields) = some given ↔
      Holds (fun d => d.label? >>= Method.ofLabel?) fields "type" given.method ∧
        Holds percent? fields "power" given.percent ∧ Holds binary32? fields "min_delta" given.low ∧
        Holds binary32? fields "max_delta" given.high ∧
        Holds (Gains.ofDocument? .json) fields "pid" given.gains := by
  simp only [ofDocument?, Option.bind_eq_bind, Option.bind_eq_some_iff, Option.pure_def,
    slots?_record_iff]
  constructor
  · rintro ⟨_, _ | ⟨hmethod, _ | ⟨hpercent, _ | ⟨hlow, _ | ⟨hhigh, _ | ⟨hgains, _ | _⟩⟩⟩⟩⟩, hgiven⟩
    simp only [Option.bind_eq_some_iff, Option.some.injEq] at hgiven
    obtain ⟨method, hmethod', percent, hpercent', low, hlow', high, hhigh', gains, hgains', rfl⟩ :=
      hgiven
    exact ⟨(optional?_single?_iff rfl).mp ⟨_, hmethod, hmethod'⟩,
      (optional?_single?_iff rfl).mp ⟨_, hpercent, hpercent'⟩,
      (optional?_single?_iff rfl).mp ⟨_, hlow, hlow'⟩,
      (optional?_single?_iff rfl).mp ⟨_, hhigh, hhigh'⟩,
      (optional?_single?_iff rfl).mp ⟨_, hgains, hgains'⟩⟩
  · rintro ⟨hmethod, hpercent, hlow, hhigh, hgains⟩
    obtain ⟨_, hmethod, hmethod'⟩ := (optional?_single?_iff rfl).mpr hmethod
    obtain ⟨_, hpercent, hpercent'⟩ := (optional?_single?_iff rfl).mpr hpercent
    obtain ⟨_, hlow, hlow'⟩ := (optional?_single?_iff rfl).mpr hlow
    obtain ⟨_, hhigh, hhigh'⟩ := (optional?_single?_iff rfl).mpr hhigh
    obtain ⟨_, hgains, hgains'⟩ := (optional?_single?_iff rfl).mpr hgains
    exact ⟨_, .cons hmethod (.cons hpercent (.cons hlow (.cons hhigh (.cons hgains .nil)))),
      by simp [hmethod', hpercent', hlow', hhigh', hgains']⟩

/-- The settings of a regulation and no others. -/
def of (method : Option Method) : Regulation → GivenRegulation
  | .constant percent => ⟨method, some percent, none, none, none⟩
  | .band low high => ⟨method, none, some low, some high, none⟩
  | .feedback gains => ⟨method, none, none, none, some gains⟩

theorem inferred_eq_ok_iff {given : GivenRegulation} {regulation : Regulation} :
    given.inferred = .ok regulation ↔ given = of given.method regulation := by
  obtain ⟨method, percent, low, high, gains⟩ := given
  unfold inferred
  split <;> cases regulation <;> simp_all [of, eq_comm]

theorem settle_eq_ok_iff {given : GivenRegulation} {regulation : Regulation} :
    given.settle = .ok regulation ↔
      (∀ named ∈ given.method, named = regulation.method) ∧ given = of given.method regulation := by
  rw [settle, bind_eq_ok, ← inferred_eq_ok_iff]
  constructor
  · rintro ⟨found, hinferred, hnamed⟩
    split at hnamed
    · rename_i named hmethod
      split at hnamed
      · rename_i hsame
        cases hnamed
        refine ⟨fun method hmem => ?_, hinferred⟩
        cases hmethod.symm.trans hmem
        exact hsame
      · cases hnamed
    · rename_i hmethod
      cases hnamed
      exact ⟨fun method hmem => (by cases hmethod.symm.trans hmem), hinferred⟩
  · rintro ⟨hnamed, hinferred⟩
    refine ⟨regulation, hinferred, ?_⟩
    split
    · rename_i named hmethod
      rw [if_pos (hnamed named hmethod)]
      rfl
    · rfl

end GivenRegulation

namespace Regulation

/-- The values of a method's settings. -/
def ValuesIn (fields : List (String × Document)) : Regulation → Prop
  | constant percent => Has fields "power" (· = ofWhole percent.toNat)
  | band low high =>
    Has fields "min_delta" (·.IsNumber low) ∧ Has fields "max_delta" (·.IsNumber high)
  | feedback gains => Has fields "pid" gains.WrittenAs

/-- How a regulation is written as a record. -/
structure WrittenIn (regulation : Regulation) (fields : List (String × Document)) : Prop where
  once : ∀ key ∈ keys, AtMostOnce fields key
  only : regulation.method.IsOnlyIn fields
  values : regulation.ValuesIn fields
  named : regulation.method.MayBeIn fields

theorem writtenIn_iff {regulation : Regulation} {fields : List (String × Document)} :
    regulation.WrittenIn fields ↔ (AtMostOnce fields "type" ∧ regulation.method.MayBeIn fields) ∧
      (∀ key ∈ ["power", "min_delta", "max_delta", "pid"], AtMostOnce fields key) ∧
        regulation.method.IsOnlyIn fields ∧ regulation.ValuesIn fields := by
  constructor
  · rintro ⟨honce, honly, hvalues, hnamed⟩
    rw [keys, List.forall_mem_cons] at honce
    exact ⟨⟨honce.1, hnamed⟩, honce.2, honly, hvalues⟩
  · rintro ⟨⟨htype, hnamed⟩, honce, honly, hvalues⟩
    exact ⟨List.forall_mem_cons.mpr ⟨htype, honce⟩, honly, hvalues, hnamed⟩

/-- The settings of a regulation are found in a record exactly if it is written there. -/
theorem holds_iff {regulation : Regulation} {fields : List (String × Document)}
    {method : Option Method} {given : GivenRegulation} (h : given = .of method regulation) :
    (Holds percent? fields "power" given.percent ∧ Holds binary32? fields "min_delta" given.low ∧
      Holds binary32? fields "max_delta" given.high ∧
      Holds (Gains.ofDocument? .json) fields "pid" given.gains) ↔
    (∀ key ∈ ["power", "min_delta", "max_delta", "pid"], AtMostOnce fields key) ∧
      regulation.method.IsOnlyIn fields ∧ regulation.ValuesIn fields := by
  subst h
  rw [Method.isOnlyIn_iff]
  cases regulation with
  | constant percent =>
    have hpercent : Has fields "power" (· = ofWhole percent.toNat) → Gives fields "power" :=
      fun h => h.gives (by simp [ofWhole])
    simp only [Holds, GivenRegulation.of, percent?_eq_some_iff, ValuesIn, Regulation.method,
      List.forall_mem_cons, reduceCtorEq, iff_true, iff_false]
    tauto
  | band low high =>
    have hnumber : ∀ key x, Has fields key (·.IsNumber x) → Gives fields key :=
      fun key x h => h.gives (not_isNumber_null x)
    have hlow := hnumber "min_delta" low
    have hhigh := hnumber "max_delta" high
    simp only [Holds, GivenRegulation.of, binary32?_eq_some_iff, ValuesIn, Regulation.method,
      List.forall_mem_cons, reduceCtorEq, iff_true, iff_false]
    tauto
  | feedback gains =>
    have hgains : Has fields "pid" gains.WrittenAs → Gives fields "pid" :=
      fun h => h.gives gains.not_writtenAs_null
    simp only [Holds, GivenRegulation.of, Gains.ofDocument?_eq_some_iff, ValuesIn,
      Regulation.method, List.forall_mem_cons, reduceCtorEq, iff_true, iff_false]
    tauto

/-- A regulation is read from the records that it may be written as, and from no others. -/
theorem ofDocument_record_eq_ok_iff {fields : List (String × Document)} {regulation : Regulation} :
    ofDocument (.record fields) = .ok regulation ↔ regulation.WrittenIn fields := by
  rw [writtenIn_iff, ← Method.mayBeIn_iff, ofDocument_eq_ok_iff]
  simp only [GivenRegulation.ofDocument?_record_iff, GivenRegulation.settle_eq_ok_iff]
  constructor
  · rintro ⟨given, ⟨htype, hsettings⟩, hnamed, hgiven⟩
    exact ⟨⟨given.method, hnamed, htype⟩, (holds_iff hgiven).mp hsettings⟩
  · rintro ⟨⟨method, hnamed, htype⟩, hwritten⟩
    refine ⟨.of method regulation, ⟨?_, (holds_iff rfl).mpr hwritten⟩, ?_⟩
    · cases regulation <;> exact htype
    · cases regulation <;> exact ⟨hnamed, rfl⟩

/-- The values of the known keys are of the right kind, or null. -/
structure WellTyped (fields : List (String × Document)) : Prop where
  once : ∀ key ∈ keys, AtMostOnce fields key
  percent : ∀ d, ("power", d) ∈ fields → d ≠ .null → ∃ percent : UInt8, d = ofWhole percent.toNat
  low : ∀ d, ("min_delta", d) ∈ fields → d ≠ .null → ∃ x, d.IsNumber x
  high : ∀ d, ("max_delta", d) ∈ fields → d ≠ .null → ∃ x, d.IsNumber x
  gains : ∀ d, ("pid", d) ∈ fields → d ≠ .null → ∃ gains : Gains, gains.WrittenAs d

/-- Where nothing is of the wrong kind, a method whose settings are all there is written there. -/
theorem WellTyped.exists_writtenIn {fields : List (String × Document)} (h : WellTyped fields)
    {method : Method} (honly : method.IsOnlyIn fields) (hnamed : method.MayBeIn fields) :
    ∃ regulation : Regulation, regulation.WrittenIn fields := by
  cases method with
  | constant =>
    obtain ⟨d, hmem, hnull⟩ := honly.1 "power" (by simp [Method.keys])
    obtain ⟨percent, hpercent⟩ := h.percent d hmem hnull
    exact ⟨.constant percent, h.once, honly, ⟨d, hmem, hpercent⟩, hnamed⟩
  | band =>
    obtain ⟨d, hmem, hnull⟩ := honly.1 "min_delta" (by simp [Method.keys])
    obtain ⟨low, hlow⟩ := h.low d hmem hnull
    obtain ⟨d', hmem', hnull'⟩ := honly.1 "max_delta" (by simp [Method.keys])
    obtain ⟨high, hhigh⟩ := h.high d' hmem' hnull'
    exact ⟨.band low high, h.once, honly, ⟨⟨d, hmem, hlow⟩, d', hmem', hhigh⟩, hnamed⟩
  | feedback =>
    obtain ⟨d, hmem, hnull⟩ := honly.1 "pid" (by simp [Method.keys])
    obtain ⟨gains, hgains⟩ := h.gains d hmem hnull
    exact ⟨.feedback gains, h.once, honly, ⟨d, hmem, hgains⟩, hnamed⟩

/-! ## Other ways to write a regulation -/

/-- What becomes of the written form of a regulation when its keys change places, when the method is
left out, and when keys come in that nobody knows or that belong to another method and are null. -/
inductive Variant (regulation : Regulation) : List (String × Document) → Prop
  | written {style : Json.Style} {fields : List (String × Document)}
      (h : Json.read? (Json.text style regulation.toDocument) = some (.record fields)) :
      Variant regulation fields
  | reordered {fields others : List (String × Document)} (h : Variant regulation fields)
      (hperm : fields.Perm others) : Variant regulation others
  | unnamed {tag : Document} {fields : List (String × Document)}
      (h : Variant regulation (("type", tag) :: fields)) : Variant regulation fields
  | unknown {key : String} {value : Document} {fields : List (String × Document)}
      (h : Variant regulation fields) (hkey : key ∉ keys) :
      Variant regulation ((key, value) :: fields)
  | null {method : Method} {key : String} {fields : List (String × Document)}
      (h : Variant regulation fields) (hmethod : method ≠ regulation.method)
      (hkey : key ∈ method.keys) (hnew : key ∉ fields.map Prod.fst) :
      Variant regulation ((key, .null) :: fields)

/-- The same settings are given, apart from null. -/
def SameSettings (fields others : List (String × Document)) : Prop :=
  ∀ method : Method, ∀ key ∈ method.keys, ∀ p : Document → Prop, ¬ p .null →
    (Has fields key p ↔ Has others key p)

theorem WrittenIn.of_same {regulation : Regulation} {fields others : List (String × Document)}
    (h : regulation.WrittenIn fields) (hsame : SameSettings fields others)
    (honce : ∀ key ∈ keys, AtMostOnce others key)
    (hnamed : ∀ d, ("type", d) ∈ others → ("type", d) ∈ fields) : regulation.WrittenIn others where
  once := honce
  only := by
    have hgives : ∀ method : Method, ∀ key ∈ method.keys, (Gives fields key ↔ Gives others key) :=
      fun method key hkey => hsame method key hkey _ (by simp)
    refine ⟨fun key hkey => (hgives _ key hkey).mp (h.only.1 key hkey), ?_⟩
    intro method hmethod key hkey hthere
    exact h.only.2 method hmethod key hkey ((hgives _ key hkey).mpr hthere)
  values := by
    have hvalues := h.values
    cases regulation with
    | constant percent => exact (hsame .constant _ (by simp [Method.keys]) _ (by simp [ofWhole])).mp hvalues
    | band low high =>
      exact ⟨(hsame .band _ (by simp [Method.keys]) _ (not_isNumber_null low)).mp hvalues.1,
        (hsame .band _ (by simp [Method.keys]) _ (not_isNumber_null high)).mp hvalues.2⟩
    | feedback gains =>
      exact (hsame .feedback _ (by simp [Method.keys]) _ gains.not_writtenAs_null).mp hvalues
  named d hd hnull := h.named d (hnamed d hd) hnull

/-- Every variant of the written form is a way to write the regulation. -/
theorem Variant.writtenIn {regulation : Regulation} {fields : List (String × Document)}
    (hreads : regulation.ReadsBack) (h : regulation.Variant fields) :
    regulation.WrittenIn fields := by
  induction h with
  | written h =>
    rw [Json.read?_text, Option.some.injEq] at h
    rw [← ofDocument_record_eq_ok_iff, ← h]
    exact regulation.reread_iff.mpr hreads
  | reordered _ hperm ih =>
    refine ih.of_same (fun _ key _ p _ => ?_) (fun key hkey => ?_) fun d hd => hperm.mem_iff.mpr hd
    · simp only [Has, hperm.mem_iff]
    · exact (atMostOnce_congr hperm key).mp (ih.once key hkey)
  | unnamed _ ih =>
    refine ih.of_same (fun method key hkey p _ => ?_)
      (fun key hkey => (ih.once key hkey).of_cons) fun d hd => List.mem_cons_of_mem _ hd
    rw [has_cons_iff, or_iff_right fun h => (Method.mem_keys key hkey).2 h.1]
  | @unknown key _ _ _ hkey ih =>
    have hne : ∀ known ∈ keys, known ≠ key := fun known hknown h => hkey (h ▸ hknown)
    refine ih.of_same (fun method known hknown p _ => ?_)
      (fun known hknown => (ih.once known hknown).cons (fun h => absurd h (hne known hknown)) _)
      fun d hd => ?_
    · rw [has_cons_iff, or_iff_right fun h => hne known (Method.mem_keys known hknown).1 h.1]
    · exact (List.mem_cons.mp hd).resolve_left fun h =>
        hne "type" (by simp [keys]) (congrArg Prod.fst h)
  | null _ hmethod hkey hnew ih =>
    refine ih.of_same (fun method known hknown p hp => ?_)
      (fun known hknown => (ih.once known hknown).cons (fun h => h ▸ hnew) _) fun d hd => ?_
    · rw [has_cons_iff, or_iff_right fun h => hp h.2]
    · exact (List.mem_cons.mp hd).resolve_left fun h =>
        (Method.mem_keys _ hkey).2 (congrArg Prod.fst h).symm

/-! ## What is refused -/

theorem exists_error {d : Document} (h : ∀ regulation, ofDocument d ≠ .ok regulation) :
    ∃ fault, ofDocument d = .error fault := by
  cases hread : ofDocument d with
  | error fault => exact ⟨fault, rfl⟩
  | ok regulation => exact absurd hread (h regulation)

/-- More fields do not change the method, if anything is read at all. -/
theorem WrittenIn.method_eq {regulation found : Regulation}
    {fields others : List (String × Document)} (h : regulation.WrittenIn fields)
    (hmore : fields ⊆ others) (hfound : found.WrittenIn others) :
    found.method = regulation.method := by
  by_contra hne
  obtain ⟨key, hkey⟩ : ∃ key, key ∈ regulation.method.keys := by
    cases regulation.method <;> exact ⟨_, List.mem_cons_self⟩
  obtain ⟨d, hmem, hnull⟩ := h.only.1 key hkey
  exact hfound.only.2 _ (Ne.symm hne) key hkey ⟨d, hmore hmem, hnull⟩

/-- Under the name of another method nothing is read. -/
theorem WrittenIn.error_of_otherName {regulation : Regulation}
    {fields others : List (String × Document)} {method : Method} {tag : Document}
    (h : regulation.WrittenIn fields) (hmethod : method ≠ regulation.method)
    (htag : method.IsNamedBy tag) (hperm : others.Perm (("type", tag) :: fields)) :
    ∃ fault, ofDocument (.record others) = .error fault := by
  apply exists_error
  intro found hread
  have hfound := ofDocument_record_eq_ok_iff.mp hread
  have hsame := h.method_eq (fun _ hd => hperm.mem_iff.mpr (List.mem_cons_of_mem _ hd)) hfound
  have hnull : tag ≠ .null := by rintro rfl; exact htag.elim nofun nofun
  have hnamed := hfound.named tag (hperm.mem_iff.mpr List.mem_cons_self) hnull
  exact hmethod ((htag.unique hnamed).trans hsame)

/-- With a setting of another method nothing is read. -/
theorem WrittenIn.error_of_otherMethod {regulation : Regulation}
    {fields added others : List (String × Document)} {method : Method} {key : String}
    (h : regulation.WrittenIn fields) (hmethod : method ≠ regulation.method)
    (hkey : key ∈ method.keys) (hadded : Gives added key) (hperm : others.Perm (fields ++ added)) :
    ∃ fault, ofDocument (.record others) = .error fault := by
  apply exists_error
  intro found hread
  have hfound := ofDocument_record_eq_ok_iff.mp hread
  have hsame := h.method_eq (fun _ hd => hperm.mem_iff.mpr (List.mem_append_left _ hd)) hfound
  obtain ⟨d, hmem, hnull⟩ := hadded
  exact hfound.only.2 method (hsame ▸ hmethod) key hkey
    ⟨d, hperm.mem_iff.mpr (List.mem_append_right _ hmem), hnull⟩

/-! ## The law -/

/-- A record whose known keys come at most once and have values of the right kind, or null, is read
exactly if the settings of one method are given and no others, and no other method is named; what is
read is made of the values of these settings. So the written form of a regulation may change its
order, lose the name of the method and take in unknown keys and null for the other methods, and it
is still read; but not under the name of another method, and not with a setting of one. -/
theorem settings_are_read_exactly {text : String} {fields : List (String × Document)}
    (htext : Json.read? text = some (.record fields)) :
    let read := readable (Json.read? text) >>= ofDocument
    (WellTyped fields → ((∃ regulation, read = .ok regulation) ↔
      ∃ method : Method, method.IsOnlyIn fields ∧ method.MayBeIn fields)) ∧
    (∀ regulation, read = .ok regulation ↔ regulation.WrittenIn fields) ∧
    ∀ regulation : Regulation, regulation.ReadsBack →
      (regulation.Variant fields → read = .ok regulation) ∧
      ∀ variant, regulation.Variant variant → ∀ method ≠ regulation.method,
        (∀ tag, method.IsNamedBy tag → fields.Perm (("type", tag) :: variant) →
          ∃ fault, read = .error fault) ∧
        ∀ added, (∃ key ∈ method.keys, Gives added key) → fields.Perm (variant ++ added) →
          ∃ fault, read = .error fault := by
  intro read
  have hread : read = ofDocument (.record fields) := by
    simp only [read, htext]
    rfl
  simp only [hread, ofDocument_record_eq_ok_iff, implies_true, true_and]
  constructor
  · intro htyped
    constructor
    · rintro ⟨regulation, hwritten⟩
      exact ⟨regulation.method, hwritten.only, hwritten.named⟩
    · rintro ⟨method, honly, hnamed⟩
      exact htyped.exists_writtenIn honly hnamed
  · intro regulation hreads
    refine ⟨Variant.writtenIn hreads, fun variant hvariant method hmethod => ⟨?_, ?_⟩⟩
    · intro tag htag hperm
      exact (hvariant.writtenIn hreads).error_of_otherName hmethod htag hperm
    · rintro added ⟨key, hkey, hadded⟩ hperm
      exact (hvariant.writtenIn hreads).error_of_otherMethod hmethod hkey hadded hperm

/-- A band without its name, in another order, with null for the gains and a note. -/
def strewnBand : List (String × Document) :=
  [("note", .record [("by", .list [.text "me", .null])]), ("max_delta", ofBinary32 2.5),
    ("pid", .null), ("min_delta", ofBinary32 0.1)]

def strewnText (added : List (String × Document)) : String :=
  Json.text .indented (.record (strewnBand ++ added))

theorem variant_strewnBand : (band 0.1 2.5).Variant (Json.rereadFields strewnBand) := by
  have hwritten := Variant.written (Json.read?_text .compact (band 0.1 2.5).toDocument)
  have hgains := @Variant.null _ .feedback "pid" _ hwritten.unnamed (by decide) (by decide)
    (by simp [Json.rereadFields])
  have hnote := @Variant.unknown _ "note" (.record [("by", .list [.text "me", .null])]) _ hgains
    (by decide)
  exact hnote.reordered (.cons _ (@List.perm_append_comm _ [_, _] [_]))

theorem wellTyped_strewnBand : WellTyped (Json.rereadFields strewnBand) where
  once key hkey := by
    revert key
    decide
  percent d hd := by simp [strewnBand, Json.rereadFields] at hd
  low d hd _ := by
    have hread : Document.ReadsBack 0.1 := by decide +kernel
    obtain rfl : d = Json.reread (ofBinary32 0.1) := by
      simpa [strewnBand, Json.rereadFields] using hd
    exact ⟨_, binary32?_eq_some_iff.mp ((readsBack_iff _).mp hread)⟩
  high d hd _ := by
    have hread : Document.ReadsBack 2.5 := by decide +kernel
    obtain rfl : d = Json.reread (ofBinary32 2.5) := by
      simpa [strewnBand, Json.rereadFields] using hd
    exact ⟨_, binary32?_eq_some_iff.mp ((readsBack_iff _).mp hread)⟩
  gains d hd hnull := by
    obtain rfl : d = .null := by simpa [strewnBand, Json.rereadFields, Json.reread] using hd
    exact absurd rfl hnull

/-- It is read as the band; named as a fixed percentage, or with a percentage besides, it is not. -/
theorem strewn_band_is_read :
    let fields := Json.rereadFields strewnBand
    let read := fun added => readable (Json.read? (strewnText added)) >>= ofDocument
    WellTyped fields ∧ (∃ method : Method, method.IsOnlyIn fields ∧ method.MayBeIn fields) ∧
      (band 0.1 2.5).ReadsBack ∧ (band 0.1 2.5).Variant fields ∧ read [] = .ok (band 0.1 2.5) ∧
      (∃ fault, read [("type", .text "simple")] = .error fault) ∧
      ∃ fault, read [("power", ofWhole 40)] = .error fault := by
  intro fields read
  have hreads : (band 0.1 2.5).ReadsBack := by decide +kernel
  have htext : ∀ added, Json.read? (strewnText added) =
      some (.record (fields ++ Json.rereadFields added)) := by
    intro added
    rw [strewnText, Json.read?_text, Json.reread]
    simp only [fields, Json.rereadFields_eq, List.map_append]
  have hpercent : Gives (Json.rereadFields [("power", ofWhole 40)]) "power" := by
    refine ⟨_, List.mem_cons_self, ?_⟩
    rw [rereadNumeral_whole (by decide)]
    simp [ofWhole]
  obtain ⟨hmethod, _, hplain⟩ := settings_are_read_exactly (htext [])
  obtain ⟨_, _, hnamed⟩ := settings_are_read_exactly (htext [("type", .text "simple")])
  obtain ⟨_, _, hmore⟩ := settings_are_read_exactly (htext [("power", ofWhole 40)])
  have hread := (hplain _ hreads).1 variant_strewnBand
  refine ⟨wellTyped_strewnBand, (hmethod wellTyped_strewnBand).mp ⟨_, hread⟩, hreads,
    variant_strewnBand, hread, ?_, ?_⟩
  · exact ((hnamed _ hreads).2 _ variant_strewnBand .constant (by decide)).1 (.text "simple")
      (.inl rfl) (List.perm_append_singleton _ _)
  · exact ((hmore _ hreads).2 _ variant_strewnBand .constant (by decide)).2 _
      ⟨"power", by decide, hpercent⟩ (.refl _)

end Regulation
end DryKiln
