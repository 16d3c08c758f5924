-- Rows of a comma-separated table, read again. What has been written as rows is read as the same
-- rows, whatever their fields hold; of a row that has not got its line feed nothing is read.
import DryKiln.Log.Writer

namespace DryKiln
namespace Csv

/-! ## Reading -/

/-- Where in a field a reader is. -/
inductive Place where
  | start
  /-- Behind the opening quote. -/
  | quoted
  /-- Behind a quote inside quotes: the first of two, or the closing one. -/
  | afterQuote
  | plain
deriving DecidableEq, Repr

/-- A row that is being read. -/
structure Reader where
  place : Place
  /-- What has been read of the field, the latest first. -/
  field : List Char
  /-- The fields before it, the latest first. -/
  fields : List (List Char)
deriving DecidableEq, Repr

namespace Reader

/-- A reader at the start of a row. -/
def fresh : Reader := ⟨.start, [], []⟩

/-- Takes a character into the field. -/
def take (r : Reader) (place : Place) (c : Char) : Reader :=
  { r with place, field := c :: r.field }

/-- Takes a character outside of quotes: the reader behind it, and the row it completes. -/
def outside (r : Reader) (c : Char) : Reader × Option (List (List Char)) :=
  if c = ',' then (⟨.start, [], r.field.reverse :: r.fields⟩, none)
  else if c = '\n' then (fresh, some (r.field.reverse :: r.fields).reverse)
  else (r.take .plain c, none)

/-- Takes a character. -/
def step (r : Reader) (c : Char) : Reader × Option (List (List Char)) :=
  match r.place with
  | .start => if c = '"' then ({ r with place := .quoted }, none) else r.outside c
  | .quoted => if c = '"' then ({ r with place := .afterQuote }, none) else (r.take .quoted c, none)
  | .afterQuote => if c = '"' then (r.take .quoted c, none) else r.outside c
  | .plain => r.outside c

end Reader

/-- The rows that a text completes behind what has been read. -/
def recordsFrom (r : Reader) : List Char → List (List (List Char))
  | [] => []
  | c :: cs => (r.step c).2.toList ++ recordsFrom (r.step c).1 cs

/-- The complete rows of a text. -/
def records (cs : List Char) : List (List (List Char)) := recordsFrom .fresh cs

/-- Several rows as one text. -/
def rows (table : List (List (List Char))) : List Char := table.flatMap row

@[simp] theorem rows_nil : rows [] = [] := rfl

@[simp] theorem rows_cons (first : List (List Char)) (table : List (List (List Char))) :
    rows (first :: table) = row first ++ rows table := List.flatMap_cons

/-! ## A field -/

theorem not_special {cs : List Char} (h : needsQuotes cs = false) {c : Char} (hc : c ∈ cs) :
    c ≠ ',' ∧ c ≠ '"' ∧ c ≠ '\n' := by
  have hs := List.any_eq_false.mp h c hc
  refine ⟨?_, ?_, ?_⟩ <;> rintro rfl <;> simp [isSpecial] at hs

/-- A reader that has read a field up to its closing quote. -/
def Reader.Behind (before : List (List Char)) (cs : List Char) (r : Reader) : Prop :=
  r.field = cs.reverse ∧ r.fields = before ∧ r.place ≠ .quoted

theorem recordsFrom_comma {r : Reader} {before : List (List Char)} {cs : List Char}
    (h : r.Behind before cs) (rest : List Char) :
    recordsFrom r (',' :: rest) = recordsFrom ⟨.start, [], cs :: before⟩ rest := by
  obtain ⟨place, field, fields⟩ := r
  obtain ⟨hf, hb, hp⟩ := h
  cases place <;> simp_all [recordsFrom, Reader.step, Reader.outside]

theorem recordsFrom_lineFeed {r : Reader} {before : List (List Char)} {cs : List Char}
    (h : r.Behind before cs) (rest : List Char) :
    recordsFrom r ('\n' :: rest) = (cs :: before).reverse :: records rest := by
  obtain ⟨place, field, fields⟩ := r
  obtain ⟨hf, hb, hp⟩ := h
  cases place <;> simp_all [recordsFrom, records, Reader.step, Reader.outside]

theorem recordsFrom_plain {cs : List Char} (h : needsQuotes cs = false)
    (before : List (List Char)) (seen rest : List Char) :
    recordsFrom ⟨.plain, seen, before⟩ (cs ++ rest) =
      recordsFrom ⟨.plain, cs.reverse ++ seen, before⟩ rest := by
  induction cs generalizing seen with
  | nil => rfl
  | cons c cs ih =>
    obtain ⟨h1, _, h3⟩ := not_special h List.mem_cons_self
    have hcs : needsQuotes cs = false := (Bool.or_eq_false_iff.mp h).2
    simp [recordsFrom, Reader.step, Reader.outside, Reader.take, h1, h3, ih hcs]

theorem recordsFrom_quoted (cs : List Char) (before : List (List Char)) (seen rest : List Char) :
    recordsFrom ⟨.quoted, seen, before⟩ (doubleQuotes cs ++ rest) =
      recordsFrom ⟨.quoted, cs.reverse ++ seen, before⟩ rest := by
  induction cs generalizing seen with
  | nil => rfl
  | cons c cs ih =>
    by_cases hc : c = '"'
    · subst hc
      simp [doubleQuotes, recordsFrom, Reader.step, Reader.take, ih]
    · simp [doubleQuotes, hc, recordsFrom, Reader.step, Reader.take, ih]

/-- A field is read up to its closing quote, whatever comes behind it. -/
theorem recordsFrom_field (before : List (List Char)) (cs : List Char) :
    ∃ r : Reader, r.Behind before cs ∧
      ∀ rest, recordsFrom ⟨.start, [], before⟩ (field cs ++ rest) = recordsFrom r rest := by
  cases hq : needsQuotes cs with
  | true =>
    refine ⟨⟨.afterQuote, cs.reverse, before⟩, ⟨rfl, rfl, by simp⟩, fun rest => ?_⟩
    have hopen : recordsFrom ⟨.start, [], before⟩ (field cs ++ rest) =
        recordsFrom ⟨.quoted, [], before⟩ (doubleQuotes cs ++ '"' :: rest) := by
      simp [field, hq, recordsFrom, Reader.step]
    rw [hopen, recordsFrom_quoted]
    simp [recordsFrom, Reader.step]
  | false =>
    cases cs with
    | nil => exact ⟨⟨.start, [], before⟩, ⟨rfl, rfl, by simp⟩, fun _ => rfl⟩
    | cons c cs =>
      refine ⟨⟨.plain, (c :: cs).reverse, before⟩, ⟨rfl, rfl, by simp⟩, fun rest => ?_⟩
      obtain ⟨h1, h2, h3⟩ := not_special hq List.mem_cons_self
      have hcs : needsQuotes cs = false := (Bool.or_eq_false_iff.mp hq).2
      simp [field, hq, recordsFrom, Reader.step, Reader.outside, Reader.take, h1, h2, h3,
        recordsFrom_plain hcs]

/-! ## Rows -/

theorem recordsFrom_row {fields : List (List Char)} (h : fields ≠ []) (before : List (List Char))
    (rest : List Char) :
    recordsFrom ⟨.start, [], before⟩ (row fields ++ rest) =
      (before.reverse ++ fields) :: records rest := by
  induction fields generalizing before with
  | nil => exact absurd rfl h
  | cons cs fields ih =>
    obtain ⟨r, hr, hread⟩ := recordsFrom_field before cs
    cases fields with
    | nil =>
      rw [row, List.append_assoc, hread, List.singleton_append, recordsFrom_lineFeed hr]
      simp
    | cons next fields =>
      rw [row, List.append_assoc, hread, List.cons_append, recordsFrom_comma hr,
        ih (List.cons_ne_nil _ _)]
      · simp
      · simp

theorem records_row_append {fields : List (List Char)} (h : fields ≠ []) (rest : List Char) :
    records (row fields ++ rest) = fields :: records rest := recordsFrom_row h [] rest

/-- What has been written as rows is read as the same rows. -/
theorem records_rows {table : List (List (List Char))} (h : ∀ fields ∈ table, fields ≠ []) :
    records (rows table) = table := by
  induction table with
  | nil => rfl
  | cons fields table ih =>
    rw [rows_cons, records_row_append (h fields List.mem_cons_self),
      ih fun other hother => h other (List.mem_cons_of_mem _ hother)]

theorem row_ne_nil (fields : List (List Char)) : row fields ≠ [] := by
  cases fields with
  | nil => simp [row]
  | cons cs fields => cases fields <;> simp [row]

end Csv
end DryKiln
