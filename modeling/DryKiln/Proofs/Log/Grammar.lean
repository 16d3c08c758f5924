-- The grammar of comma-separated tables, and a reader that holds a text to it. A text has at most
-- one reading, and what has been written as rows has the reading that it was written from.
import DryKiln.Proofs.Log.Table

namespace DryKiln
namespace Csv

/-! ## The grammar -/

/-- What stands between the quotes of a field: any characters, a quote written twice. -/
inductive IsQuoted : List Char → List Char → Prop
  | nil : IsQuoted [] []
  | quote {text value : List Char} : IsQuoted text value →
      IsQuoted ('"' :: '"' :: text) ('"' :: value)
  | other {c : Char} {text value : List Char} : c ≠ '"' → IsQuoted text value →
      IsQuoted (c :: text) (c :: value)

/-- A field and its value. Outside of quotes there is no comma, quote or half of a line break;
blanks belong to the value. -/
inductive IsField : List Char → List Char → Prop
  | quoted {text value : List Char} : IsQuoted text value → IsField ('"' :: text ++ ['"']) value
  | plain {value : List Char} : needsQuotes value = false → IsField value value

/-- A record: one field, or several with commas between them. -/
inductive IsRecord : List Char → List (List Char) → Prop
  | last {text value : List Char} : IsField text value → IsRecord text [value]
  | cons {text value rest : List Char} {values : List (List Char)} : IsField text value →
      IsRecord rest values → IsRecord (text ++ ',' :: rest) (value :: values)

inductive IsLineBreak : List Char → Prop
  | lineFeed : IsLineBreak ['\n']
  | withReturn : IsLineBreak ['\r', '\n']

/-- A table: records with a line break behind each, which the last one may lack. -/
inductive IsTable : List Char → List (List (List Char)) → Prop
  | nil : IsTable [] []
  | unended {text : List Char} {record : List (List Char)} : IsRecord text record → text ≠ [] →
      IsTable text [record]
  | cons {text lineBreak rest : List Char} {record : List (List Char)}
      {records : List (List (List Char))} : IsRecord text record → IsLineBreak lineBreak →
      IsTable rest records → IsTable (text ++ (lineBreak ++ rest)) (record :: records)

/-! ## What is written -/

theorem isQuoted_doubleQuotes (cs : List Char) : IsQuoted (doubleQuotes cs) cs := by
  induction cs with
  | nil => exact .nil
  | cons c cs ih =>
    by_cases hc : c = '"'
    · subst hc
      exact .quote ih
    · rw [doubleQuotes, if_neg hc]
      exact .other hc ih

theorem isField_field (cs : List Char) : IsField (field cs) cs := by
  unfold field
  split
  · exact .quoted (isQuoted_doubleQuotes cs)
  · next h => exact .plain (Bool.eq_false_iff.mpr h)

theorem isRecord_row {fields : List (List Char)} (h : fields ≠ []) :
    ∃ text, row fields = text ++ ['\n'] ∧ IsRecord text fields := by
  induction fields with
  | nil => exact absurd rfl h
  | cons cs fields ih =>
    cases fields with
    | nil => exact ⟨field cs, rfl, .last (isField_field cs)⟩
    | cons next fields =>
      obtain ⟨text, htext, hrecord⟩ := ih (List.cons_ne_nil _ _)
      refine ⟨field cs ++ ',' :: text, ?_, .cons (isField_field cs) hrecord⟩
      rw [row, htext]
      · simp
      · simp

/-- Rows that have been written are a table of the same records. -/
theorem isTable_rows {table : List (List (List Char))} (h : ∀ fields ∈ table, fields ≠ []) :
    IsTable (rows table) table := by
  induction table with
  | nil => exact .nil
  | cons fields table ih =>
    obtain ⟨hfields, htable⟩ := List.forall_mem_cons.mp h
    obtain ⟨text, htext, hrecord⟩ := isRecord_row hfields
    rw [rows_cons, htext, List.append_assoc]
    exact .cons hrecord .lineFeed (ih htable)

/-! ## The reader -/

/-- The record that ends where the reader is. -/
def Reader.record (r : Reader) : List (List Char) := (r.field.reverse :: r.fields).reverse

/-- The records of a text behind what has been read, if all of it keeps to the grammar. -/
def readFrom? (r : Reader) : List Char → Option (List (List (List Char)))
  | [] => if r.place = .quoted then none else if r = .fresh then some [] else some [r.record]
  | c :: cs =>
    if r.place = .quoted then
      readFrom? (if c = '"' then { r with place := .afterQuote } else r.take .quoted c) cs
    else if c = '"' then
      match r.place with
      | .start => readFrom? { r with place := .quoted } cs
      | .afterQuote => readFrom? (r.take .quoted c) cs
      | _ => none
    else if c = ',' then readFrom? ⟨.start, [], r.field.reverse :: r.fields⟩ cs
    else if c = '\n' then (readFrom? .fresh cs).map (r.record :: ·)
    -- a carriage return is half of a line break
    else if c = '\r' then if cs.head? = some '\n' then readFrom? r cs else none
    else if r.place = .afterQuote then none
    else readFrom? (r.take .plain c) cs

/-- The records of a text, if it keeps to the grammar. -/
def read? (cs : List Char) : Option (List (List (List Char))) := readFrom? .fresh cs

/-! ## Reading by the grammar -/

theorem readFrom?_quoted {text value : List Char} (h : IsQuoted text value)
    (before : List (List Char)) (seen rest : List Char) :
    readFrom? ⟨.quoted, seen, before⟩ (text ++ '"' :: rest) =
      readFrom? ⟨.afterQuote, value.reverse ++ seen, before⟩ rest := by
  induction h generalizing seen with
  | nil => simp [readFrom?]
  | quote _ ih => simp [readFrom?, Reader.take, ih]
  | other hc _ ih => simp [readFrom?, Reader.take, hc, ih]

theorem not_break {cs : List Char} (h : needsQuotes cs = false) {c : Char} (hc : c ∈ cs) :
    c ≠ '\r' := by
  have hs := List.any_eq_false.mp h c hc
  rintro rfl
  simp [isSpecial] at hs

theorem readFrom?_plain {value : List Char} (h : needsQuotes value = false)
    (before : List (List Char)) (seen rest : List Char) :
    readFrom? ⟨.plain, seen, before⟩ (value ++ rest) =
      readFrom? ⟨.plain, value.reverse ++ seen, before⟩ rest := by
  induction value generalizing seen with
  | nil => rfl
  | cons c value ih =>
    obtain ⟨h1, h2, h3⟩ := not_special h List.mem_cons_self
    have h4 := not_break h List.mem_cons_self
    have hvalue : needsQuotes value = false := (Bool.or_eq_false_iff.mp h).2
    simp [readFrom?, Reader.take, h1, h2, h3, h4, ih hvalue]

/-- A reader that has read a field up to its end, or to its closing quote. -/
theorem readFrom?_field {text value : List Char} (h : IsField text value)
    (before : List (List Char)) :
    ∃ r : Reader, r.Behind before value ∧ (r = .fresh → text = []) ∧
      ∀ rest, readFrom? ⟨.start, [], before⟩ (text ++ rest) = readFrom? r rest := by
  cases h with
  | @quoted text _ hquoted =>
    refine ⟨⟨.afterQuote, value.reverse, before⟩, ⟨rfl, rfl, by simp⟩, by simp [Reader.fresh],
      fun rest => ?_⟩
    have hopen : readFrom? ⟨.start, [], before⟩ ('"' :: text ++ ['"'] ++ rest) =
        readFrom? ⟨.quoted, [], before⟩ (text ++ '"' :: rest) := by
      simp [readFrom?]
    rw [hopen, readFrom?_quoted hquoted, List.append_nil]
  | plain hplain =>
    cases text with
    | nil => exact ⟨⟨.start, [], before⟩, ⟨rfl, rfl, by simp⟩, fun _ => rfl, fun _ => rfl⟩
    | cons c cs =>
      refine ⟨⟨.plain, (c :: cs).reverse, before⟩, ⟨rfl, rfl, by simp⟩, by simp [Reader.fresh],
        fun rest => ?_⟩
      obtain ⟨h1, h2, h3⟩ := not_special hplain List.mem_cons_self
      have h4 := not_break hplain List.mem_cons_self
      have hcs : needsQuotes cs = false := (Bool.or_eq_false_iff.mp hplain).2
      simp [readFrom?, Reader.take, h1, h2, h3, h4, readFrom?_plain hcs]

theorem IsRecord.ne_nil {text : List Char} {values : List (List Char)} (h : IsRecord text values) :
    values ≠ [] := by
  cases h <;> simp

/-- A reader that has read a record up to its end. -/
structure Reader.AtEnd (record : List (List Char)) (r : Reader) : Prop where
  record : r.record = record
  place : r.place ≠ .quoted

theorem readFrom?_comma {r : Reader} {before : List (List Char)} {value : List Char}
    (h : r.Behind before value) (rest : List Char) :
    readFrom? r (',' :: rest) = readFrom? ⟨.start, [], value :: before⟩ rest := by
  obtain ⟨hfield, hbefore, hplace⟩ := h
  simp [readFrom?, hplace, hfield, hbefore]

theorem readFrom?_record {text : List Char} {values : List (List Char)} (h : IsRecord text values)
    (before : List (List Char)) :
    ∃ r : Reader, r.AtEnd (before.reverse ++ values) ∧ (r = .fresh → text = []) ∧
      ∀ rest, readFrom? ⟨.start, [], before⟩ (text ++ rest) = readFrom? r rest := by
  induction h generalizing before with
  | last hfield =>
    obtain ⟨r, ⟨hvalue, hbefore, hplace⟩, hfresh, hread⟩ := readFrom?_field hfield before
    exact ⟨r, ⟨by simp [Reader.record, hvalue, hbefore], hplace⟩, hfresh, hread⟩
  | @cons text value rest values hfield hvalues ih =>
    obtain ⟨r, hr, -, hread⟩ := readFrom?_field hfield before
    obtain ⟨last, hlast, -, hrest⟩ := ih (value :: before)
    refine ⟨last, ⟨by simp [hlast.record], hlast.place⟩, ?_, fun other => ?_⟩
    · -- a comma has been read, so there is a field before the last one
      rintro rfl
      have hlength := congrArg List.length hlast.record
      have hpos := List.length_pos_iff.mpr hvalues.ne_nil
      simp only [Reader.record, Reader.fresh, List.length_reverse, List.length_cons,
        List.length_nil, List.length_append] at hlength
      omega
    · rw [List.append_assoc, hread, List.cons_append, readFrom?_comma hr, hrest]

theorem readFrom?_lineBreak {r : Reader} {record : List (List Char)} (h : r.AtEnd record)
    {lineBreak : List Char} (hbreak : IsLineBreak lineBreak) (rest : List Char) :
    readFrom? r (lineBreak ++ rest) = (read? rest).map (record :: ·) := by
  obtain ⟨rfl, hplace⟩ := h
  cases hbreak <;> simp [readFrom?, read?, hplace]

/-- A text that keeps to the grammar is read by it. -/
theorem read?_of_isTable {text : List Char} {records : List (List (List Char))}
    (h : IsTable text records) : read? text = some records := by
  induction h with
  | nil => rfl
  | @unended text record hrecord hne =>
    obtain ⟨r, hend, hfresh, hread⟩ := readFrom?_record hrecord []
    have hnot : r ≠ .fresh := fun heq => hne (hfresh heq)
    have hlast := hread []
    rw [List.append_nil] at hlast
    rw [read?, Reader.fresh, hlast, readFrom?, if_neg hend.place, if_neg hnot, hend.record]
    rfl
  | @cons text lineBreak rest record records hrecord hbreak _ ih =>
    obtain ⟨r, hend, -, hread⟩ := readFrom?_record hrecord []
    rw [read?, Reader.fresh, hread, readFrom?_lineBreak hend hbreak, ih]
    rfl

/-- A text has at most one reading. -/
theorem IsTable.unique {text : List Char} {first second : List (List (List Char))}
    (hfirst : IsTable text first) (hsecond : IsTable text second) : first = second :=
  Option.some.inj ((read?_of_isTable hfirst).symm.trans (read?_of_isTable hsecond))

end Csv
end DryKiln
