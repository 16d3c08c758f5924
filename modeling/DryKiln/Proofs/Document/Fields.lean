-- What is read of the fields of a written record. Each field is found by its name, whatever fields
-- stand around it and whichever of them have been left out; a number is found as it was exactly if
-- its text is read as the same number.
import DryKiln.Program.Document
import DryKiln.Proofs.Json.RoundTrip
import Mathlib.Data.List.Nodup
import Mathlib.Data.String.Basic

namespace DryKiln

/-! ## Results that depend on each other -/

theorem bind_eq_ok {ε α β : Type} {x : Except ε α} {f : α → Except ε β} {b : β} :
    x >>= f = .ok b ↔ ∃ a, x = .ok a ∧ f a = .ok b := by
  cases x with
  | error fault => simp [bind, Except.bind]
  | ok a => simp [bind, Except.bind]

theorem readable_eq_ok {α : Type} {x : Option α} {a : α} : readable x = .ok a ↔ x = some a := by
  cases x <;> simp [readable]

/-- Reading each of several values gives them back exactly if each reading gives its value back. -/
theorem mapM_eq_ok_iff {ε α β : Type} (encode : α → β) (read : β → Except ε α) (values : List α) :
    (values.map encode).mapM read = .ok values ↔
      ∀ value ∈ values, read (encode value) = .ok value := by
  induction values with
  | nil => simp [pure, Except.pure]
  | cons value values ih =>
    rw [List.map_cons, List.mapM_cons, List.forall_mem_cons, ← ih]
    simp only [bind_eq_ok, pure, Except.pure, Except.ok.injEq, List.cons.injEq]
    constructor
    · rintro ⟨first, hfirst, rest, hrest, rfl, rfl⟩
      exact ⟨hfirst, hrest⟩
    · rintro ⟨hfirst, hrest⟩
      exact ⟨value, hfirst, values, hrest, rfl, rfl⟩

namespace Document

/-! ## Fields that are there -/

/-- The fields that are set. -/
def present (given : List (String × Option Document)) : List (String × Document) :=
  given.flatMap fun entry => entry.2.toList.map (entry.1, ·)

theorem filter_present_of_not_mem {name : String} {given : List (String × Option Document)}
    (h : name ∉ given.map Prod.fst) :
    (present given).filter (fun field => field.1 == name) = [] := by
  rw [List.filter_eq_nil_iff]
  rintro ⟨key, value⟩ hmem
  obtain ⟨entry, hentry, hfield⟩ := List.mem_flatMap.mp hmem
  obtain ⟨value, _, heq⟩ := List.mem_map.mp hfield
  cases heq
  rw [beq_iff_eq]
  rintro rfl
  exact h (List.mem_map_of_mem hentry)

theorem filter_present {name : String} {value : Option Document}
    {given : List (String × Option Document)} (hnodup : (given.map Prod.fst).Nodup)
    (hmem : (name, value) ∈ given) :
    (present given).filter (fun field => field.1 == name) = value.toList.map (name, ·) := by
  induction given with
  | nil => cases hmem
  | cons entry rest ih =>
    obtain ⟨hnew, hrest⟩ := List.nodup_cons.mp hnodup
    have hsplit : present (entry :: rest) =
        entry.2.toList.map (entry.1, ·) ++ present rest := by
      rw [present, List.flatMap_cons]
      rfl
    rw [hsplit, List.filter_append]
    rcases List.mem_cons.mp hmem with rfl | hmem
    · rw [filter_present_of_not_mem hnew, List.append_nil, List.filter_eq_self]
      rintro ⟨key, given⟩ hfield
      obtain ⟨_, _, heq⟩ := List.mem_map.mp hfield
      cases heq
      exact beq_self_eq_true name
    · have hne : entry.1 ≠ name := by
        rintro rfl
        exact hnew (List.mem_map.mpr ⟨_, hmem, rfl⟩)
      have hnone : (entry.2.toList.map (entry.1, ·)).filter (fun field => field.1 == name) = [] := by
        rw [List.filter_eq_nil_iff]
        rintro ⟨key, given⟩ hfield
        obtain ⟨_, _, heq⟩ := List.mem_map.mp hfield
        cases heq
        simpa using hne
      rw [hnone, List.nil_append]
      exact ih hrest hmem

theorem single?_present {name : String} {value : Option Document}
    {given : List (String × Option Document)} (hnodup : (given.map Prod.fst).Nodup)
    (hmem : (name, value) ∈ given) : single? name (present given) = some value := by
  rw [single?, filter_present hnodup hmem]
  cases value <;> rfl

/-- Each field of a written record is in its slot. -/
theorem slots?_present {given : List (String × Option Document)} {fields : List Field}
    (hnodup : (given.map Prod.fst).Nodup) (hnames : fields.map Field.name = given.map Prod.fst) :
    (Document.record (present given)).slots? fields = some (given.map Prod.snd) := by
  have hall : ∀ (entries : List (String × Option Document)) (fields : List Field),
      (∀ entry ∈ entries, entry ∈ given) → fields.map Field.name = entries.map Prod.fst →
      fields.mapM (fun field => single? field.name (present given)) =
        some (entries.map Prod.snd) := by
    intro entries
    induction entries with
    | nil =>
      intro fields _ hnames
      rw [List.map_nil, List.map_eq_nil_iff] at hnames
      subst hnames
      rfl
    | cons entry entries ih =>
      intro fields hmem hnames
      obtain ⟨hentry, hentries⟩ := List.forall_mem_cons.mp hmem
      rw [List.map_cons, List.map_eq_cons_iff] at hnames
      obtain ⟨field, rest, rfl, hfield, hrest⟩ := hnames
      rw [List.mapM_cons, hfield, single?_present hnodup hentry, ih rest hentries hrest]
      rfl
  exact hall given fields (fun _ h => h) hnames

theorem rereadFields_present (given : List (String × Option Document)) :
    Json.rereadFields (present given) =
      present (given.map fun entry => (entry.1, entry.2.map Json.reread)) := by
  rw [Json.rereadFields_eq]
  induction given with
  | nil => rfl
  | cons entry rest ih =>
    simp only [present, List.flatMap_cons, List.map_cons, List.map_append] at ih ⊢
    rw [ih]
    cases entry.2 <;> rfl

/-- Each field of a record that has been written and read is in its slot. -/
theorem slots?_reread (given : List (String × Option Document)) {d : Document}
    {fields : List Field} (hd : d = .record (present given))
    (hnames : fields.map Field.name = given.map Prod.fst) (hnodup : (given.map Prod.fst).Nodup) :
    (Json.reread d).slots? fields = some (given.map fun entry => entry.2.map Json.reread) := by
  subst hd
  have hkeys : (given.map fun entry => (entry.1, entry.2.map Json.reread)).map Prod.fst =
      given.map Prod.fst := by
    rw [List.map_map]
    rfl
  rw [Json.reread, rereadFields_present, slots?_present (hkeys ▸ hnodup) (hkeys ▸ hnames),
    List.map_map]
  rfl

theorem present_cons_some (name : String) (value : Document)
    (rest : List (String × Option Document)) :
    present ((name, some value) :: rest) = (name, value) :: present rest := rfl

theorem present_cons_map {α : Type} (name : String) (encode : α → Document) (value : Option α)
    (rest : List (String × Option Document)) :
    present ((name, value.map encode) :: rest) = ofSet name encode value ++ present rest := by
  cases value <;> rfl

/-! ## Numbers -/

/-- The text of a number is read as the same number. -/
def ReadsBack (x : Float32) : Prop :=
  (Json.read? (Json.text .compact (ofBinary32 x))).bind binary32? = some x

instance (x : Float32) : Decidable (ReadsBack x) := inferInstanceAs (Decidable (_ = _))

theorem readsBack_iff (x : Float32) :
    ReadsBack x ↔ binary32? (Json.reread (ofBinary32 x)) = some x := by
  rw [ReadsBack, Json.read?_text, Option.bind_some]

/-- An infinity and what is no number are written as null, which is read as no number. -/
theorem not_readsBack_of_not_finite {x : Float32} (h : (x.isNaN || x.isInf) = true) :
    ¬ReadsBack x := by
  have hnull : ofBinary32 x = .null := by
    simp only [ofBinary32, Numeral.ofBinary32?, Decimal.shortest?, if_pos h, Option.map_none]
  rw [readsBack_iff, hnull]
  simp [Json.reread, binary32?]

theorem rereadNumeral_whole {n : Int} (h : Numeral.wordRange n = true) :
    Json.reread (ofWhole n) = ofWhole n := by
  have hnumber := Json.number?_writeWhole h
  rw [Json.number?, Option.map_eq_some_iff] at hnumber
  obtain ⟨t, hread, htoken⟩ := hnumber
  have hvalue : t.numeral? = some (.whole n) := by simpa using htoken
  have hread' : Json.NumberText.read? (Json.writeNumeral (.whole n)) = some t := hread
  rw [ofWhole, Json.reread, Json.rereadNumeral, hread']
  simp [hvalue]

theorem minValue_toInt : Int64.minValue.toInt = -9223372036854775808 := by decide

theorem maxValue_toInt : Int64.maxValue.toInt = 9223372036854775807 := by decide

theorem whole?_reread {low high n : Int} (h : low ≤ n ∧ n ≤ high)
    (hlow : -9223372036854775808 ≤ low) (hhigh : high < 18446744073709551616) :
    whole? low high (Json.reread (ofWhole n)) = some n := by
  have hrange : Numeral.wordRange n = true := by
    simp only [Numeral.wordRange, minValue_toInt, UInt64.size, Bool.and_eq_true, decide_eq_true_eq]
    omega
  rw [rereadNumeral_whole hrange, ofWhole, whole?, if_pos h]

theorem percent?_reread (percent : UInt8) :
    percent? (Json.reread (ofWhole percent.toNat)) = some percent := by
  have hlt := percent.toNat_lt
  rw [percent?, whole?_reread (by omega) (by omega) (by omega)]
  simp

theorem duration?_reread (seconds : UInt64) :
    duration? (Json.reread (ofWhole seconds.toNat)) = some seconds := by
  have hlt := seconds.toNat_lt
  have hsize : (UInt64.size : Int) = 18446744073709551616 := rfl
  rw [duration?, whole?_reread (by omega) (by omega) (by omega)]
  simp

/-- A second that a signed machine word holds. -/
def InstantRange (second : Int) : Prop :=
  Int64.minValue.toInt ≤ second ∧ second ≤ Int64.maxValue.toInt

instance (second : Int) : Decidable (InstantRange second) := inferInstanceAs (Decidable (_ ∧ _))

theorem instant?_reread {second : Int} (h : InstantRange second) :
    instant? (Json.reread (ofWhole second)) = some second := by
  rw [InstantRange, minValue_toInt, maxValue_toInt] at h
  rw [instant?, minValue_toInt, maxValue_toInt, whole?_reread h (by omega) (by omega)]

/-! ## Fields that may be missing -/

/-- A value that reads as null, and only that, is taken for a field that is missing. -/
theorem optional?_eq_some_iff {α : Type} {read : Document → Option α} (hnull : read .null = none)
    (d : Document) (value : α) :
    optional? read (some d) = some (some value) ↔ read d = some value := by
  cases d with
  | null => simp [optional?, hnull]
  | _ => simp [optional?]

/-- A field that is set or missing is read as it is, exactly if its value is. -/
theorem optional?_map {α : Type} {read : Document → Option α} (hnull : read .null = none)
    (encode : α → Document) (value : Option α) :
    optional? read (value.map encode) = some value ↔
      ∀ x ∈ value, read (encode x) = some x := by
  cases value with
  | none => simp [optional?]
  | some x => simp [optional?_eq_some_iff hnull]

/-- The entries of a record with free keys. -/
theorem foldl_putEntry {α : Type} (entries sorted : List (String × α))
    (h : (sorted ++ entries).Pairwise fun first second => first.1 < second.1) :
    entries.foldl (fun sorted entry => putEntry entry.1 entry.2 sorted) sorted =
      sorted ++ entries := by
  have hput : ∀ (key : String) (value : α) (sorted : List (String × α)),
      (∀ entry ∈ sorted, entry.1 < key) → putEntry key value sorted = sorted ++ [(key, value)] := by
    intro key value sorted
    induction sorted with
    | nil => exact fun _ => rfl
    | cons entry rest ih =>
      intro hbefore
      obtain ⟨hentry, hrest⟩ := List.forall_mem_cons.mp hbefore
      rw [putEntry, if_neg (lt_asymm hentry), if_neg (ne_of_gt hentry), ih hrest]
      rfl
  induction entries generalizing sorted with
  | nil => exact (List.append_nil sorted).symm
  | cons entry rest ih =>
    have hbefore : ∀ other ∈ sorted, other.1 < entry.1 :=
      fun other hother => (List.pairwise_append.mp h).2.2 other hother entry List.mem_cons_self
    rw [List.append_cons] at h
    rw [List.foldl_cons, hput entry.1 entry.2 sorted hbefore, List.append_cons sorted entry rest]
    exact ih _ h

end Document
end DryKiln
