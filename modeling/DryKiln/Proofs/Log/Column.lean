-- A log whose sink takes everything. It has a row whenever another step is shown than before, so
-- that its step column tells the same as all that has been shown, up to names that are repeated.
import DryKiln.Proofs.Log.Calls
import DryKiln.Proofs.Time.Clock
import Mathlib

namespace DryKiln

/-! ## Repetitions -/

section Merging

variable {α : Type} [DecidableEq α]

/-- Adjacent equal entries merged. -/
def merged (l : List α) : List α := l.destutter (· ≠ ·)

theorem destutter'_concat (first : α) (l : List α) (a : α) :
    (l ++ [a]).destutter' (· ≠ ·) first =
      if (first :: l).getLast? = some a then l.destutter' (· ≠ ·) first
      else l.destutter' (· ≠ ·) first ++ [a] := by
  induction l generalizing first with
  | nil => by_cases h : first = a <;> simp [h]
  | cons second l ih =>
    by_cases h : first = second
    · subst h
      simp [ih]
    · simp only [List.cons_append, List.destutter'_cons, ne_eq, h, not_false_eq_true, if_true, ih,
        List.getLast?_cons_cons]
      split <;> rfl

theorem merged_concat (l : List α) (a : α) :
    merged (l ++ [a]) = if l.getLast? = some a then merged l else merged l ++ [a] := by
  cases l with
  | nil => rfl
  | cons first l => exact destutter'_concat first l a

theorem getLast?_merged (l : List α) : (merged l).getLast? = l.getLast? := by
  induction l using List.reverseRecOn with
  | nil => rfl
  | append_singleton l a ih =>
    rw [merged_concat]
    split
    · next h => rw [ih, h, List.getLast?_concat]
    · simp

/-- Repeating what has come last makes no difference. -/
theorem merged_concat_last {l : List α} {a : α} (h : l.getLast? = some a) :
    merged (l ++ [a]) = merged l := by
  rw [merged_concat, if_pos h]

theorem merged_concat_congr {l m : List α} (h : merged l = merged m) (a : α) :
    merged (l ++ [a]) = merged (m ++ [a]) := by
  rw [merged_concat, merged_concat, ← getLast?_merged l, ← getLast?_merged m, h]

theorem merged_replicate (l : List α) (n : Nat) (a : α) :
    merged (l ++ List.replicate (n + 1) a) = merged (l ++ [a]) := by
  induction n with
  | zero => rfl
  | succ n ih =>
    rw [List.replicate_succ', ← List.append_assoc, merged_concat_last _, ih]
    simp [List.getLast?_replicate]

end Merging

/-- The step column of a table. -/
def stepColumn (table : List (List String)) : List String := table.map fun row => row.getD 1 ""

/-! ## Calls that the sink takes -/

namespace Csv

variable {accepts : WriteAnswers}

/-- All pieces find room if the sink takes whatever it is given. -/
theorem stuck_fill_of_accepts (h : ∀ i, accepts i = true) (pieces : List Piece) (writes size : Nat)
    (held sent : List UInt8) : (fill accepts writes size held sent pieces).stuck = none := by
  induction pieces generalizing writes size held sent with
  | nil => rfl
  | cons piece pieces ih =>
    rw [fill, if_pos (h writes)]
    split <;> exact ih ..

theorem Buffer.goesOut_of_accepts (h : ∀ i, accepts i = true) (buffer : Buffer)
    (row : List (List Char)) : buffer.goesOut row accepts = true := by
  simp [goesOut, gather, stuck_fill_of_accepts h, h]

end Csv

namespace LogWriter

/-- The sink takes everything. -/
def Takes (calls : List Call) : Prop := ∀ call ∈ calls, ∀ i, call.accepts i = true

/-- What a call can do whose sink takes everything, if nothing waits in the buffer: nothing, or write
its row. -/
inductive Adds (log : LogWriter) (call : Call) : Prop
  | nothing (hdue : (log.note call).due = false) (hwrote : (log.note call).wrote = false)
      (hsent : (log.note call).sent = "") (hnext : log.next call = log)
  | row (hdue : (log.note call).due = true) (hwrote : (log.note call).wrote = true)
      (hsent : (log.note call).sent = csvLine (log.note call).row)
      (hnext : log.next call = { log with
        lastRow := some call.now, lastStep := call.status.stepName, buffer := .empty })

theorem adds {log : LogWriter} (hbuffer : log.buffer = .empty) {call : Call}
    (hcall : ∀ i, call.accepts i = true) : log.Adds call := by
  cases log.did call with
  | skipped hdue hwrote hsent hnext => exact .nothing hdue hwrote hsent hnext
  | behind _ hodd => rw [hbuffer] at hodd; cases hodd
  | wrote hdue _ _ hwrote hsent hnext =>
    have hheld : textOf log.buffer.held = "" := by rw [hbuffer]; rfl
    rw [hheld, String.empty_append] at hsent
    exact .row hdue hwrote hsent hnext
  | refused _ _ hout => rw [Csv.Buffer.goesOut_of_accepts hcall] at hout; cases hout

theorem buffer_next {log : LogWriter} (hbuffer : log.buffer = .empty) {call : Call}
    (hcall : ∀ i, call.accepts i = true) : (log.next call).buffer = .empty := by
  cases adds hbuffer hcall with
  | nothing _ _ _ hnext => rw [hnext]; exact hbuffer
  | row _ _ _ hnext => rw [hnext]

/-- A sink that takes everything gets each row that is needed. -/
theorem wrote_eq_due {log : LogWriter} (hbuffer : log.buffer = .empty) {call : Call}
    (hcall : ∀ i, call.accepts i = true) : (log.note call).wrote = (log.note call).due := by
  cases adds hbuffer hcall <;> simp [*]

/-- The steps that have been shown. -/
def names (calls : List Call) : List String := calls.map fun call => call.status.stepName

theorem openedAt_next (log : LogWriter) (call : Call) :
    (log.next call).openedAt = log.openedAt := by
  unfold next addLine
  dsimp only
  repeat' split
  all_goals rfl

/-- What a log has written whose sink has taken everything. -/
structure Gapless (log : LogWriter) (notes : List Note) (calls : List Call) : Prop where
  buffer : log.buffer = .empty
  isOpen : log.isOpen = true
  sent : sentBy notes = rowsText (rowsWhere Note.due notes)
  column : merged (stepColumn (rowsWhere Note.due notes)) = merged (names calls)
  /-- The last row is about what has been shown last. -/
  last : (names calls).getLast? = if log.lastRow = none then none else some log.lastStep

/-- Without a row so far, or with another step than the last, a row is needed. -/
theorem due_of_new {log : LogWriter} {call : Call} (hopen : log.isOpen = true)
    (h : (if log.lastRow = none then none else some log.lastStep) ≠ some call.status.stepName) :
    (log.note call).due = true := by
  simp only [note, needsRow, hopen, Bool.and_true, Bool.or_eq_true, bne_iff_ne]
  cases hrow : log.lastRow with
  | none => exact .inr rfl
  | some second =>
    refine .inl fun heq => h ?_
    rw [hrow, heq]
    rfl

theorem Gapless.next {log : LogWriter} {notes : List Note} {calls : List Call}
    (h : Gapless log notes calls) {call : Call} (hcall : ∀ i, call.accepts i = true) :
    Gapless (log.next call) (notes ++ [log.note call]) (calls ++ [call]) := by
  have hopen : (log.next call).isOpen = true := (log.isOpen_next call).trans h.isOpen
  have hnames : names (calls ++ [call]) = names calls ++ [call.status.stepName] := by
    simp [names]
  cases adds h.buffer hcall with
  | nothing hdue hwrote hsent hnext =>
    have hlast : (names calls).getLast? = some call.status.stepName := by
      by_contra hne
      rw [h.last] at hne
      rw [due_of_new h.isOpen hne] at hdue
      cases hdue
    have hrows : rowsWhere Note.due (notes ++ [log.note call]) = rowsWhere Note.due notes := by
      simp [rowsWhere_append, rowsWhere_singleton, hdue]
    refine ⟨by rw [hnext]; exact h.buffer, hopen, ?_, ?_, ?_⟩
    · rw [sentBy_append, h.sent, hrows, sentBy_cons, hsent]
      simp
    · rw [hrows, h.column, hnames, merged_concat_last hlast]
    · rw [hnext, ← h.last, hnames, List.getLast?_concat, hlast]
  | row hdue _ hsent hnext =>
    have hrows : rowsWhere Note.due (notes ++ [log.note call]) =
        rowsWhere Note.due notes ++ [(log.note call).row] := by
      simp [rowsWhere_append, rowsWhere_singleton, hdue]
    refine ⟨by rw [hnext], hopen, ?_, ?_, ?_⟩
    · rw [sentBy_append, h.sent, hrows, sentBy_cons, hsent]
      simp
    · have hcolumn : stepColumn (rowsWhere Note.due (notes ++ [log.note call])) =
          stepColumn (rowsWhere Note.due notes) ++ [call.status.stepName] := by
        rw [hrows]
        simp [stepColumn, note, rowOf]
      rw [hcolumn, hnames, merged_concat_congr h.column]
    · simp [hnext, hnames]

theorem gapless (resolution openedAt : Int) {calls : List Call} (hcalls : Takes calls) :
    Gapless ((opened resolution openedAt).after calls) ((opened resolution openedAt).notes calls)
      calls := by
  induction calls using List.reverseRecOn with
  | nil => exact ⟨rfl, rfl, rfl, rfl, rfl⟩
  | append_singleton calls call ih =>
    rw [after_concat, notes_concat]
    exact (ih fun other hother => hcalls other (by simp [hother])).next (hcalls call (by simp))

/-! ## The columns of the seconds -/

end LogWriter

/-- The seconds that a row gives since the log was opened. -/
def timeOf (row : List String) : Option Int := (row[0]?).bind String.toInt?

/-- The seconds that a row gives since the step was begun. -/
def stepTimeOf (row : List String) : Option Int := (row[2]?).bind String.toInt?

/-- Each row is about a step that has been begun since the log was opened, and no row is about a
time before that of the row above it. -/
structure TimedRows (table : List (List String)) : Prop where
  bounds : ∀ row ∈ table, ∃ time stepTime, timeOf row = some time ∧
    stepTimeOf row = some stepTime ∧ 0 ≤ stepTime ∧ stepTime ≤ time
  order : table.Pairwise fun above row => ∃ before time, timeOf above = some before ∧
    timeOf row = some time ∧ before ≤ time

theorem TimedRows.sublist {table rows : List (List String)} (h : TimedRows table)
    (hrows : rows.Sublist table) : TimedRows rows :=
  ⟨fun row hrow => h.bounds row (hrows.subset hrow), h.order.sublist hrows⟩

namespace LogWriter

theorem timeOf_rowOf (log : LogWriter) (status : Status) (now : Int) :
    timeOf (log.rowOf status now) = some (secondsSince log.openedAt now) := Int.toInt?_repr _

theorem stepTimeOf_rowOf (log : LogWriter) (status : Status) (now : Int) :
    stepTimeOf (log.rowOf status now) = some (secondsSince status.stepStartedAt now) :=
  Int.toInt?_repr _

/-- The calls come one after the other, and show steps begun since a second. -/
structure Ordered (since : Int) (calls : List Call) : Prop where
  bounds : ∀ call ∈ calls, since ≤ call.status.stepStartedAt ∧ call.status.stepStartedAt ≤ call.now
  order : calls.Pairwise fun earlier later => earlier.now ≤ later.now

/-- The rows are about calls, in order. -/
theorem rowsWhere_sublist (p : Note → Bool) (log : LogWriter) (calls : List Call) :
    (rowsWhere p (log.notes calls)).Sublist
      (calls.map fun call => log.rowOf call.status call.now) := by
  have hrows : (log.notes calls).map Note.row =
      calls.map fun call => log.rowOf call.status call.now := by
    induction calls generalizing log with
    | nil => rfl
    | cons call calls ih =>
      have hsame : (log.next call).rowOf = log.rowOf := by
        funext status now
        rw [rowOf, rowOf, openedAt_next]
      simp only [notes, List.map_cons, ih, hsame]
      rfl
  rw [← hrows]
  exact List.filter_sublist.map Note.row

/-- The seconds since then fit into a word if the call is not too long after it. -/
theorem Ordered.secondsSince_eq {since : Int} {calls : List Call} (h : Ordered since calls)
    {call : Call} (hcall : call ∈ calls) (hnear : call.now - since < 2 ^ 63) :
    secondsSince since call.now = call.now - since ∧
      secondsSince call.status.stepStartedAt call.now = call.now - call.status.stepStartedAt := by
  obtain ⟨hsince, hnow⟩ := h.bounds call hcall
  exact ⟨FitsWord.secondsSince ⟨by omega, hnear⟩, FitsWord.secondsSince ⟨by omega, by omega⟩⟩

theorem timed_rows {log : LogWriter} {calls : List Call} (h : Ordered log.openedAt calls)
    (hnear : ∀ call ∈ calls, call.now - log.openedAt < 2 ^ 63) (p : Note → Bool) :
    TimedRows (rowsWhere p (log.notes calls)) := by
  refine TimedRows.sublist ⟨?_, ?_⟩ (rowsWhere_sublist p log calls)
  · intro row hrow
    obtain ⟨call, hcall, rfl⟩ := List.mem_map.mp hrow
    obtain ⟨hsince, hnow⟩ := h.bounds call hcall
    obtain ⟨htime, hstepTime⟩ := h.secondsSince_eq hcall (hnear call hcall)
    exact ⟨_, _, timeOf_rowOf .., stepTimeOf_rowOf .., by omega, by omega⟩
  · rw [List.pairwise_map]
    refine h.order.imp_of_mem fun hearlier hlater hle => ?_
    have hbefore := (h.secondsSince_eq hearlier (hnear _ hearlier)).1
    have htime := (h.secondsSince_eq hlater (hnear _ hlater)).1
    exact ⟨_, _, timeOf_rowOf .., timeOf_rowOf .., by omega⟩

end LogWriter
end DryKiln
