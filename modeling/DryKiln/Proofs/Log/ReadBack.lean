-- A log is read back as it was written. Whatever the steps are called, the bytes that its sink has
-- taken are a table with the header and one record for each row that was said to be written, and
-- every field of it gives what was logged.
import DryKiln.Proofs.Log.Column
import DryKiln.Proofs.Log.Grammar

namespace DryKiln

/-! ## Records -/

/-- The records of some bytes, if they keep to the grammar of tables. -/
def tableOf? (bytes : List UInt8) : Option (List (List String)) :=
  (Csv.read? (Utf8.decode bytes)).map (·.map (·.map String.ofList))

/-- The whole number in a column. -/
def countIn (column : Nat) (row : List String) : Option Nat := (row[column]?).bind String.toNat?

/-- A record gives what a status has shown at a second, in eight fields. -/
structure Tells (openedAt : Int) (shown : Status × Int) (row : List String) : Prop where
  length : row.length = 8
  time : timeOf row = some (secondsSince openedAt shown.2)
  step : row[1]? = some shown.1.stepName
  stepTime : stepTimeOf row = some (secondsSince shown.1.stepStartedAt shown.2)
  material : row[3]? = some (oneDecimalText shown.1.temperatures.material)
  oven : row[4]? = some (oneDecimalText shown.1.temperatures.oven)
  heater : countIn 5 row = some shown.1.power.heater.toNat
  fan : countIn 6 row = some shown.1.power.fan.toNat
  humidifier : countIn 7 row = some shown.1.power.humidifier.toNat

theorem isTable_rowsText {table : List (List String)} (h : ∀ row ∈ table, row ≠ []) :
    Csv.IsTable (rowsText table).toList (table.map (·.map String.toList)) := by
  rw [toList_rowsText]
  exact Csv.isTable_rows (by simpa using h)

/-- The bytes of rows are read as these rows, and as nothing else. -/
theorem tableOf?_rowsText {table : List (List String)} (h : ∀ row ∈ table, row ≠ []) :
    tableOf? (Utf8.encode (rowsText table).toList) = some table := by
  rw [tableOf?, Utf8.decode_encode, Csv.read?_of_isTable (isTable_rowsText h)]
  simp [Function.comp_def]

namespace LogWriter

/-! ## What is asked of a log -/

/-- What is asked of a log whose sink takes everything. -/
inductive Request where
  | line (status : Status) (now : Int)
  | close

/-- The status that is offered, and when. -/
def Request.shown? : Request → Option (Status × Int)
  | line status now => some (status, now)
  | close => none

def answer (log : LogWriter) : Request → Written
  | .line status now => log.addLine status now fun _ => true
  | .close => log.close true

/-- All that reaches the sink behind the header. -/
def collected (log : LogWriter) : List Request → String
  | [] => ""
  | request :: requests =>
    (log.answer request).sent ++ (log.answer request).log.collected requests

/-- What was shown with the requests that have been answered with `true`. -/
def logged (log : LogWriter) : List Request → List (Status × Int)
  | [] => []
  | request :: requests =>
    (if (log.answer request).wrote then request.shown?.toList else []) ++
      (log.answer request).log.logged requests

theorem tells_rowOf (log : LogWriter) (shown : Status × Int) :
    Tells log.openedAt shown (log.rowOf shown.1 shown.2) :=
  ⟨rfl, timeOf_rowOf .., rfl, stepTimeOf_rowOf .., rfl, rfl, Nat.toNat?_repr _, Nat.toNat?_repr _,
    Nat.toNat?_repr _⟩

/-- A request sends its row if it is answered with `true`, and else nothing. -/
theorem answer_of_empty {log : LogWriter} (hbuffer : log.buffer = .empty) (request : Request) :
    (log.answer request).log.buffer = .empty ∧
      (log.answer request).log.openedAt = log.openedAt ∧
      (log.answer request).sent = rowsText
        ((if (log.answer request).wrote then request.shown?.toList else []).map fun shown =>
          log.rowOf shown.1 shown.2) := by
  cases request with
  | close =>
    refine ⟨rfl, rfl, ?_⟩
    rw [answer, close, hbuffer]
    cases log.isOpen <;> rfl
  | line status now =>
    let call : Call := ⟨status, now, fun _ => true⟩
    have hsent : (log.answer (.line status now)).sent = (log.note call).sent := rfl
    have hwrote : (log.answer (.line status now)).wrote = (log.note call).wrote := rfl
    have hcall : ∀ i, call.accepts i = true := fun _ => rfl
    have hnext : (log.next call).buffer = .empty := buffer_next hbuffer hcall
    refine ⟨hnext, log.openedAt_next call, ?_⟩
    rw [hsent, hwrote]
    cases adds hbuffer hcall with
    | nothing _ hwrote hsent => rw [hsent, hwrote]; rfl
    | row _ hwrote hsent =>
      rw [hsent, hwrote]
      simp [Request.shown?, note]
      rfl

/-- The requests that are answered with `true`: those to an open log for a row that is needed. -/
theorem wrote_answer_iff {log : LogWriter} (hbuffer : log.buffer = .empty) (request : Request) :
    (log.answer request).wrote = true ↔ log.isOpen = true ∧
      ∃ shown, request.shown? = some shown ∧ log.needsRow shown.1 shown.2 = true := by
  cases request with
  | close => simp [answer, close, Request.shown?]
  | line status now =>
    have hwrote : (log.answer (.line status now)).wrote =
        (log.needsRow status now && log.isOpen) :=
      @wrote_eq_due log hbuffer ⟨status, now, fun _ => true⟩ fun _ => rfl
    simp [hwrote, Request.shown?, and_comm]

/-- A log is open until it is closed. -/
theorem isOpen_answer (log : LogWriter) (request : Request) :
    (log.answer request).log.isOpen = (log.isOpen && request.shown?.isSome) := by
  cases request with
  | close => simp [answer, close, Request.shown?]
  | line status now =>
    have hopen : (log.answer (.line status now)).log.isOpen = log.isOpen :=
      log.isOpen_next ⟨status, now, fun _ => true⟩
    simp [hopen, Request.shown?]

theorem collected_eq {log : LogWriter} (hbuffer : log.buffer = .empty) (requests : List Request) :
    log.collected requests =
      rowsText ((log.logged requests).map fun shown => log.rowOf shown.1 shown.2) := by
  induction requests generalizing log with
  | nil => rfl
  | cons request requests ih =>
    obtain ⟨hnext, hopened, hsent⟩ := answer_of_empty hbuffer request
    have hrow : (log.answer request).log.rowOf = log.rowOf := by
      funext status now
      rw [rowOf, rowOf, hopened]
    rw [collected, logged, ih hnext, hrow, hsent, List.map_append, rowsText_append]

/-! ## The law -/

/-- Whatever is asked of a log whose sink takes everything, and whatever the steps are called: the
bytes at its sink keep to the grammar of tables and have one reading only, the header and then one
record of eight fields for each row that was said to be written, in their order. The name of the
step is there as it is, the seconds and the percentages as the numbers that were logged, and the
temperatures with one decimal place. -/
theorem log_is_read_back (resolution openedAt : Int) (requests : List Request) :
    let log := opened resolution openedAt
    let bytes := Utf8.encode (header ++ log.collected requests).toList
    ∃ table, tableOf? bytes = some (logColumns :: table) ∧
      (∀ records, Csv.IsTable (Utf8.decode bytes) records ↔
        records = (logColumns :: table).map (·.map String.toList)) ∧
      List.Forall₂ (Tells openedAt) (log.logged requests) table := by
  intro log bytes
  let table := (log.logged requests).map fun shown => log.rowOf shown.1 shown.2
  have hrows : ∀ row ∈ logColumns :: table, row ≠ [] := by
    refine List.forall_mem_cons.mpr ⟨by simp [logColumns], fun row hrow => ?_⟩
    obtain ⟨shown, -, rfl⟩ := List.mem_map.mp hrow
    simp [rowOf]
  have hbytes : bytes = Utf8.encode (rowsText (logColumns :: table)).toList := by
    rw [rowsText_cons, ← collected_eq rfl]
    rfl
  refine ⟨table, ?_, fun records => ?_, ?_⟩
  · rw [hbytes, tableOf?_rowsText hrows]
  · have htable := isTable_rowsText hrows
    rw [hbytes, Utf8.decode_encode]
    exact ⟨fun hrecords => hrecords.unique htable, fun heq => heq ▸ htable⟩
  · rw [List.forall₂_map_right_iff, List.forall₂_same]
    exact fun shown _ => log.tells_rowOf shown

/-- A name of a step that needs quotes is read as it is. -/
example :
    let up : Status := { Status.initial ⟨"oak", [], none⟩ with stepName := "up, \"slow\"\r\n " }
    tableOf? (Utf8.encode (header ++ (opened 60 0).collected [.line up 5, .close]).toList) =
      some [logColumns, ["5", "up, \"slow\"\r\n ", "5", "0.0", "0.0", "0", "0", "0"]] := by
  decide +kernel

end LogWriter
end DryKiln
