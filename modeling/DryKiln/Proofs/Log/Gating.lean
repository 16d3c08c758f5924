-- When a log gets a row. As long as its sink takes everything, its last row is about the step that
-- was shown last and is younger than the resolution, and two rows of one step that follow each
-- other are at least the resolution apart. So the rows themselves tell whether one more is needed.
-- All that is about seconds that are close together: their differences have to fit into a word.
import DryKiln.Proofs.Log.Column

namespace DryKiln
namespace LogWriter

/-! ## Rows -/

/-- The rows that the sink of a log has below its header after some calls. -/
def tableAfter (log : LogWriter) (calls : List Call) : List (List String) :=
  recordsOf (sentBy (log.notes calls))

/-- A row that makes another one needless: it is about the step that is shown, and it is younger
than the resolution. -/
def Suffices (resolution openedAt : Int) (call : Call) (row : List String) : Prop :=
  row[1]? = some call.status.stepName ∧
    ∃ time, timeOf row = some time ∧ call.now - (openedAt + time) < resolution

/-- Two rows that follow each other are about different steps, or the resolution is between them. -/
def Apart (resolution : Int) (above row : List String) : Prop :=
  row[1]? = above[1]? → ∃ before time, timeOf above = some before ∧ timeOf row = some time ∧
    resolution ≤ time - before

/-! ## What a log knows of its rows -/

/-- A log knows the step and the second of its last row. -/
structure Knows (log : LogWriter) (table : List (List String)) : Prop where
  none : log.lastRow = none → table = []
  some : ∀ second, log.lastRow = some second → ∃ row, table.getLast? = some row ∧
    row[1]? = some log.lastStep ∧ timeOf row = some (second - log.openedAt)

theorem Knows.of_last {log : LogWriter} {table : List (List String)} (h : log.Knows table)
    {row : List String} (hrow : row ∈ table.getLast?) : ∃ second, log.lastRow = Option.some second ∧
      row[1]? = Option.some log.lastStep ∧ timeOf row = Option.some (second - log.openedAt) := by
  cases hlast : log.lastRow with
  | none =>
    rw [h.none hlast] at hrow
    cases hrow
  | some second =>
    obtain ⟨last, hlast, hstep, htime⟩ := h.some second hlast
    obtain rfl := Option.some.inj (hlast.symm.trans hrow)
    exact ⟨second, rfl, hstep, htime⟩

/-- What it knows is enough to tell whether a row is needed. -/
theorem Knows.needsRow_iff {log : LogWriter} {table : List (List String)} (h : log.Knows table)
    {call : Call}
    (hage : ∀ second, log.lastRow = Option.some second → FitsWord (call.now - second)) :
    log.needsRow call.status call.now = true ↔
      ∀ row ∈ table.getLast?, ¬Suffices log.resolution log.openedAt call row := by
  rw [needsRow, Bool.or_eq_true, bne_iff_ne]
  cases hlast : log.lastRow with
  | none => simp [h.none hlast]
  | some second =>
    obtain ⟨row, hrow, hstep, htime⟩ := h.some second hlast
    have hsince : call.now - (log.openedAt + (second - log.openedAt)) =
        secondsSince second call.now := by
      rw [(hage second hlast).secondsSince]
      omega
    simp only [hrow, Option.mem_def, Option.some.injEq, forall_eq', Suffices, hstep, htime,
      exists_eq_left', hsince, decide_eq_true_eq, not_and, Int.not_lt, ne_eq,
      eq_comm (a := log.lastStep)]
    exact imp_iff_not_or.symm

/-- A row that is needed is not too close to the one above it. -/
theorem Knows.apart {log : LogWriter} {table : List (List String)} (h : log.Knows table)
    {call : Call} (hneeds : log.needsRow call.status call.now = true)
    (htime : FitsWord (call.now - log.openedAt))
    (hage : ∀ second, log.lastRow = Option.some second → FitsWord (call.now - second))
    {above : List String} (habove : above ∈ table.getLast?) :
    Apart log.resolution above (log.note call).row := by
  intro hsame
  obtain ⟨second, -, -, hbefore⟩ := h.of_last habove
  refine ⟨_, _, hbefore, timeOf_rowOf .., ?_⟩
  by_contra hyoung
  rw [htime.secondsSince] at hyoung
  exact (h.needsRow_iff hage).mp hneeds above habove ⟨hsame.symm, _, hbefore, by omega⟩

/-! ## What a log has written -/

/-- A log with its rows, if its sink has taken everything. -/
structure Gated (resolution openedAt : Int) (log : LogWriter) (calls : List Call)
    (table : List (List String)) : Prop where
  buffer : log.buffer = .empty
  isOpen : log.isOpen = true
  resolution_eq : log.resolution = resolution
  openedAt_eq : log.openedAt = openedAt
  knows : log.Knows table
  apart : table.IsChain (Apart resolution)
  /-- The last row is from one of the calls. -/
  past : ∀ second, log.lastRow = some second → ∃ call ∈ calls, call.now = second

theorem due_eq {log : LogWriter} (hopen : log.isOpen = true) (call : Call) :
    (log.note call).due = log.needsRow call.status call.now := by
  rw [note, hopen, Bool.and_true]

variable {resolution openedAt : Int} {log : LogWriter} {calls : List Call}
  {table : List (List String)}

/-- The last row is not too old for its age to be told. -/
theorem Gated.age (h : Gated resolution openedAt log calls table) {call : Call}
    (hclose : CloseTogether (openedAt :: (calls ++ [call]).map Call.now)) (second : Int)
    (hsecond : log.lastRow = some second) : FitsWord (call.now - second) := by
  obtain ⟨earlier, hearlier, rfl⟩ := h.past second hsecond
  refine hclose.fits ?_ (by simp)
  simp only [List.map_append, List.mem_cons, List.mem_append]
  exact .inr (.inl (List.mem_map_of_mem hearlier))

/-- A call adds its row if it says so, which it does if a row is needed. -/
theorem Gated.next (h : Gated resolution openedAt log calls table) {call : Call}
    (hcall : ∀ i, call.accepts i = true)
    (hclose : CloseTogether (openedAt :: (calls ++ [call]).map Call.now)) :
    (log.note call).wrote = log.needsRow call.status call.now ∧
      (log.note call).sent =
        rowsText (if (log.note call).wrote then [(log.note call).row] else []) ∧
      Gated resolution openedAt (log.next call) (calls ++ [call])
        (table ++ if (log.note call).wrote then [(log.note call).row] else []) := by
  have hdue := due_eq h.isOpen call
  have htime : FitsWord (call.now - log.openedAt) :=
    hclose.fits (by simp [h.openedAt_eq]) (by simp)
  cases adds h.buffer hcall with
  | nothing hnot hwrote hsent hnext =>
    refine ⟨by rw [hwrote, ← hdue, hnot], by rw [hsent, hwrote]; rfl, ?_⟩
    rw [hnext, hwrote, if_neg (by decide), List.append_nil]
    refine { h with past := fun second hsecond => ?_ }
    obtain ⟨earlier, hearlier, hnow⟩ := h.past second hsecond
    exact ⟨earlier, List.mem_append_left _ hearlier, hnow⟩
  | row hneeds hwrote hsent hnext =>
    rw [hdue] at hneeds
    refine ⟨by rw [hwrote, hneeds], by rw [hsent, hwrote]; simp, ?_⟩
    rw [hwrote, if_pos rfl, hnext]
    refine ⟨rfl, h.isOpen, h.resolution_eq, h.openedAt_eq, ⟨nofun, ?_⟩, ?_, ?_⟩
    · rintro second ⟨⟩
      exact ⟨_, List.getLast?_concat, rfl, htime.secondsSince ▸ timeOf_rowOf ..⟩
    · refine List.isChain_append.mpr ⟨h.apart, List.isChain_singleton _, ?_⟩
      rintro above habove _ ⟨⟩
      exact h.resolution_eq ▸ h.knows.apart hneeds htime (h.age hclose) habove
    · rintro second ⟨⟩
      exact ⟨call, by simp, rfl⟩

/-- After a call the last row is about it and not old: if that needed a row, it is a new one. -/
theorem Gated.last_row (h : Gated resolution openedAt log calls table) {call : Call}
    (hcall : ∀ i, call.accepts i = true)
    (hclose : CloseTogether (openedAt :: (calls ++ [call]).map Call.now))
    (hresolution : 0 < resolution)
    (hpast : ∀ earlier ∈ calls, earlier.now ≤ call.now) :
    ∃ row time, (table ++ if (log.note call).wrote then
        [(log.note call).row] else []).getLast? = some row ∧
      row[1]? = some call.status.stepName ∧ timeOf row = some time ∧
      0 ≤ call.now - (openedAt + time) ∧ call.now - (openedAt + time) < resolution := by
  obtain rfl := h.openedAt_eq
  obtain rfl := h.resolution_eq
  have htime : FitsWord (call.now - log.openedAt) := hclose.fits (by simp) (by simp)
  rw [(h.next hcall hclose).1]
  by_cases hneeds : log.needsRow call.status call.now = true
  · rw [if_pos hneeds]
    refine ⟨_, _, List.getLast?_concat, rfl, timeOf_rowOf .., ?_⟩
    rw [htime.secondsSince]
    omega
  · rw [if_neg hneeds, List.append_nil]
    rw [h.knows.needsRow_iff (h.age hclose)] at hneeds
    push Not at hneeds
    obtain ⟨row, hrow, hstep, time, htime, hage⟩ := hneeds
    obtain ⟨second, hsecond, -, htime'⟩ := h.knows.of_last hrow
    obtain rfl := Option.some.inj (htime'.symm.trans htime)
    obtain ⟨earlier, hearlier, rfl⟩ := h.past second hsecond
    have := hpast earlier hearlier
    exact ⟨row, _, hrow, hstep, htime, by omega, hage⟩

theorem closeTogether_of_concat {call : Call}
    (h : CloseTogether (openedAt :: (calls ++ [call]).map Call.now)) :
    CloseTogether (openedAt :: calls.map Call.now) :=
  h.subset (by simp)

/-- What the sink gets are the rows of the calls that have returned `true`. -/
theorem gated (resolution : Int) (hcalls : Takes calls)
    (hclose : CloseTogether (openedAt :: calls.map Call.now)) :
    sentBy ((opened resolution openedAt).notes calls) =
        rowsText (rowsWhere Note.wrote ((opened resolution openedAt).notes calls)) ∧
      Gated resolution openedAt ((opened resolution openedAt).after calls) calls
        (rowsWhere Note.wrote ((opened resolution openedAt).notes calls)) := by
  induction calls using List.reverseRecOn with
  | nil => exact ⟨rfl, rfl, rfl, rfl, rfl, ⟨fun _ => rfl, nofun⟩, .nil, nofun⟩
  | append_singleton calls call ih =>
    obtain ⟨hsent, hgated⟩ := ih (fun other hother => hcalls other (by simp [hother]))
      (closeTogether_of_concat hclose)
    obtain ⟨-, hlast, hnext⟩ := hgated.next (hcalls call (by simp)) hclose
    rw [notes_concat, after_concat, rowsWhere_append, rowsWhere_singleton, sentBy_append, hsent,
      sentBy_cons, hlast]
    exact ⟨by simp, hnext⟩

theorem tableAfter_eq (resolution : Int) (hcalls : Takes calls)
    (hclose : CloseTogether (openedAt :: calls.map Call.now)) :
    (opened resolution openedAt).tableAfter calls =
      rowsWhere Note.wrote ((opened resolution openedAt).notes calls) := by
  rw [tableAfter, (gated resolution hcalls hclose).1]
  exact recordsOf_rowsText ne_nil_of_mem_rowsWhere

/-! ## The law -/

def showing (name : String) : Status :=
  { Status.initial ⟨"oak", [], none⟩ with stepName := name }

end LogWriter
end DryKiln
