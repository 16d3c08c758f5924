-- Calls of a log, and what is noted of each: whether its row was needed, what the sink got and what
-- the call returned. A call does nothing, adds its row behind one that has broken off, writes it,
-- or has it refused.
import DryKiln.Proofs.Log.Bytes
import DryKiln.Proofs.Log.Table

namespace DryKiln

/-! ## Texts of rows -/

/-- Several rows as one text. -/
def rowsText (table : List (List String)) : String := String.join (table.map csvLine)

/-- The complete rows of a text. -/
def recordsOf (text : String) : List (List String) :=
  (Csv.records text.toList).map (·.map String.ofList)

@[simp] theorem rowsText_nil : rowsText [] = "" := rfl

@[simp] theorem rowsText_cons (row : List String) (table : List (List String)) :
    rowsText (row :: table) = csvLine row ++ rowsText table := by
  simp [rowsText, String.join_cons]

@[simp] theorem rowsText_append (before after : List (List String)) :
    rowsText (before ++ after) = rowsText before ++ rowsText after := by
  simp [rowsText, String.join_append]

theorem toList_rowsText (table : List (List String)) :
    (rowsText table).toList = Csv.rows (table.map (·.map String.toList)) := by
  induction table with
  | nil => rfl
  | cons row table ih => simp [ih, csvLine]

theorem csvLine_ne_empty (row : List String) : csvLine row ≠ "" := by
  rw [csvLine, ne_eq, String.ofList_eq_empty_iff]
  exact Csv.row_ne_nil _

/-- Rows that have been written are read as the same rows. -/
theorem recordsOf_rowsText {table : List (List String)} (h : ∀ row ∈ table, row ≠ []) :
    recordsOf (rowsText table) = table := by
  have hrows : ∀ fields ∈ table.map (·.map String.toList), fields ≠ [] := by
    simpa using h
  rw [recordsOf, toList_rowsText, Csv.records_rows hrows]
  simp [Function.comp_def]

namespace LogWriter

/-- Bytes that are no row yet are read as the rows that they make. -/
theorem textOf_encode (table : List (List String)) :
    textOf (Utf8.encode (rowsText table).toList).reverse = rowsText table := by
  rw [textOf, List.reverse_reverse, Utf8.decode_encode, String.ofList_toList]

theorem textOf_ne_empty {bytes : List UInt8} (h : bytes ≠ []) : textOf bytes ≠ "" := by
  rw [textOf, ne_eq, String.ofList_eq_empty_iff, Utf8.decode_eq_nil_iff]
  simpa using h

/-! ## Calls -/

/-- A status that is offered to a log at a second. -/
structure Call where
  status : Status
  now : Int
  accepts : WriteAnswers

/-- What is known of a call afterwards. -/
structure Note where
  row : List String
  /-- A row was needed. -/
  due : Bool
  /-- The sink takes what it is given first. -/
  accepts : Bool
  /-- The call has returned that a row was written. -/
  wrote : Bool
  /-- What has reached the sink. -/
  sent : String

/-- A row was needed, and the call has returned that none was written. -/
def Note.refused (note : Note) : Bool := note.due && !note.wrote

/-- The log after a call. -/
def next (log : LogWriter) (call : Call) : LogWriter :=
  (log.addLine call.status call.now call.accepts).log

def note (log : LogWriter) (call : Call) : Note :=
  { row := log.rowOf call.status call.now
    due := log.needsRow call.status call.now && log.isOpen
    accepts := call.accepts 0
    wrote := (log.addLine call.status call.now call.accepts).wrote
    sent := (log.addLine call.status call.now call.accepts).sent }

/-- The log after several calls. -/
def after (log : LogWriter) (calls : List Call) : LogWriter := calls.foldl next log

def notes (log : LogWriter) : List Call → List Note
  | [] => []
  | call :: calls => log.note call :: (log.next call).notes calls

/-- What reaches the sink when the log is closed at last. `closing` says whether the sink takes
anything then. -/
def lastSent (log : LogWriter) (calls : List Call) (closing : Bool) : String :=
  ((log.after calls).close closing).sent

/-- What has reached the sink after several calls. -/
def sentBy (notes : List Note) : String := String.join (notes.map Note.sent)

/-- All that reaches the sink behind the header. -/
def told (log : LogWriter) (calls : List Call) (closing : Bool) : String :=
  sentBy (log.notes calls) ++ log.lastSent calls closing

/-- The rows of those calls. -/
def rowsWhere (p : Note → Bool) (notes : List Note) : List (List String) :=
  (notes.filter p).map Note.row

/-- Nothing reaches the sink with a refused row or after it. -/
def Quiet (notes : List Note) (last : String) : Prop :=
  notes.Pairwise (fun earlier later => earlier.refused → later.sent = "") ∧
    ∀ note ∈ notes, note.refused → note.sent = "" ∧ last = ""

@[simp] theorem sentBy_nil : sentBy [] = "" := rfl

@[simp] theorem sentBy_cons (note : Note) (notes : List Note) :
    sentBy (note :: notes) = note.sent ++ sentBy notes := by
  simp [sentBy, String.join_cons]

theorem sentBy_append (before after : List Note) :
    sentBy (before ++ after) = sentBy before ++ sentBy after := by
  simp [sentBy, String.join_append]

theorem sentBy_eq_empty {notes : List Note} (h : ∀ note ∈ notes, note.sent = "") :
    sentBy notes = "" := by
  induction notes with
  | nil => rfl
  | cons note notes ih =>
    obtain ⟨hfirst, hrest⟩ := List.forall_mem_cons.mp h
    rw [sentBy_cons, hfirst, ih hrest]
    rfl

theorem rowsWhere_cons (p : Note → Bool) (note : Note) (notes : List Note) :
    rowsWhere p (note :: notes) =
      if p note then note.row :: rowsWhere p notes else rowsWhere p notes := by
  by_cases h : p note <;> simp [rowsWhere, h]

theorem told_cons (log : LogWriter) (call : Call) (calls : List Call) (closing : Bool) :
    log.told (call :: calls) closing =
      (log.note call).sent ++ (log.next call).told calls closing := by
  simp [told, notes, lastSent, after, String.append_assoc]

/-! ## Sequences of calls -/

theorem after_append (log : LogWriter) (first second : List Call) :
    log.after (first ++ second) = (log.after first).after second := List.foldl_append

theorem notes_append (log : LogWriter) (first second : List Call) :
    log.notes (first ++ second) = log.notes first ++ (log.after first).notes second := by
  induction first generalizing log with
  | nil => rfl
  | cons call first ih => simp only [List.cons_append, notes, ih]; rfl

theorem after_concat (log : LogWriter) (calls : List Call) (call : Call) :
    log.after (calls ++ [call]) = (log.after calls).next call := log.after_append calls [call]

theorem notes_concat (log : LogWriter) (calls : List Call) (call : Call) :
    log.notes (calls ++ [call]) = log.notes calls ++ [(log.after calls).note call] :=
  log.notes_append calls [call]

theorem rowsWhere_append (p : Note → Bool) (before after : List Note) :
    rowsWhere p (before ++ after) = rowsWhere p before ++ rowsWhere p after := by
  simp [rowsWhere]

theorem rowsWhere_singleton (p : Note → Bool) (note : Note) :
    rowsWhere p [note] = if p note then [note.row] else [] := rowsWhere_cons p note []

/-! ## One call -/

theorem isOpen_next (log : LogWriter) (call : Call) : (log.next call).isOpen = log.isOpen := by
  unfold next addLine
  dsimp only
  repeat' split
  all_goals rfl

/-- What a call can do: nothing, add a row behind one that has broken off, write it, or have it
refused. -/
inductive Did (log : LogWriter) (call : Call) : Prop
  | skipped (hdue : (log.note call).due = false) (hwrote : (log.note call).wrote = false)
      (hsent : (log.note call).sent = "") (hnext : log.next call = log)
  | behind (hdue : (log.note call).due = true) (hodd : log.buffer.isEven = false)
      (hwrote : (log.note call).wrote = false)
      (hsent : (log.note call).sent = textOf (log.buffer.addBehind
        ((log.note call).row.map String.toList) call.accepts).2)
      (hnext : (log.next call).buffer = (log.buffer.addBehind
        ((log.note call).row.map String.toList) call.accepts).1)
  | wrote (hdue : (log.note call).due = true) (heven : log.buffer.isEven = true)
      (hout : log.buffer.goesOut ((log.note call).row.map String.toList) call.accepts = true)
      (hwrote : (log.note call).wrote = true)
      (hsent : (log.note call).sent = textOf log.buffer.held ++ csvLine (log.note call).row)
      (hnext : log.next call = { log with
        lastRow := some call.now, lastStep := call.status.stepName, buffer := .empty })
  | refused (hdue : (log.note call).due = true) (heven : log.buffer.isEven = true)
      (hout : log.buffer.goesOut ((log.note call).row.map String.toList) call.accepts = false)
      (hwrote : (log.note call).wrote = false)
      (hsent : (log.note call).sent = textOf (log.buffer.addRefused
        ((log.note call).row.map String.toList) call.accepts).2)
      (hnext : (log.next call).buffer = (log.buffer.addRefused
        ((log.note call).row.map String.toList) call.accepts).1)

theorem did (log : LogWriter) (call : Call) : log.Did call := by
  by_cases hskip : (!log.needsRow call.status call.now || !log.isOpen) = true
  · have hdo : log.addLine call.status call.now call.accepts = ⟨log, "", false⟩ := by
      rw [addLine, if_pos hskip]
    have hdue : (log.note call).due = false := by
      rw [note, Bool.and_eq_false_iff]
      simpa using hskip
    refine .skipped hdue ?_ ?_ ?_ <;> simp [note, next, hdo]
  · have hdue : (log.note call).due = true := by simpa [note] using hskip
    have hdo := addLine.eq_1 log call.status call.now call.accepts
    rw [if_neg hskip] at hdo
    dsimp only at hdo
    cases heven : log.buffer.isEven with
    | false =>
      simp only [heven, Bool.not_false, if_true] at hdo
      refine .behind hdue heven ?_ ?_ ?_ <;> simp [note, next, hdo]
    | true =>
      simp only [heven, Bool.not_true, Bool.false_eq_true, if_false] at hdo
      cases hout : log.buffer.goesOut ((log.note call).row.map String.toList) call.accepts with
      | true =>
        have hrow : log.buffer.goesOut ((log.rowOf call.status call.now).map String.toList)
            call.accepts = true := hout
        rw [if_pos hrow] at hdo
        refine .wrote hdue heven hout ?_ ?_ ?_ <;> simp [note, next, hdo]
      | false =>
        have hrow : ¬ log.buffer.goesOut ((log.rowOf call.status call.now).map String.toList)
            call.accepts = true := by simpa [note] using hout
        rw [if_neg hrow] at hdo
        refine .refused hdue heven hout ?_ ?_ ?_ <;> simp [note, next, hdo]

theorem row_ne_nil (log : LogWriter) (call : Call) : (log.note call).row ≠ [] := by
  simp [note, rowOf]

theorem isOpen_after (log : LogWriter) (calls : List Call) :
    (log.after calls).isOpen = log.isOpen := by
  induction calls generalizing log with
  | nil => rfl
  | cons call calls ih => exact (ih (log.next call)).trans (log.isOpen_next call)

theorem row_of_mem_notes {log : LogWriter} {calls : List Call} :
    ∀ note ∈ log.notes calls, note.row ≠ [] := by
  induction calls generalizing log with
  | nil => simp [notes]
  | cons call calls ih => exact List.forall_mem_cons.mpr ⟨log.row_ne_nil call, ih⟩

theorem ne_nil_of_mem_rowsWhere {log : LogWriter} {calls : List Call} {p : Note → Bool} :
    ∀ row ∈ rowsWhere p (log.notes calls), row ≠ [] := by
  intro row hrow
  obtain ⟨note, hnote, rfl⟩ := List.mem_map.mp hrow
  exact row_of_mem_notes note (List.mem_filter.mp hnote).1

end LogWriter
end DryKiln
