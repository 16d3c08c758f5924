-- What the sink of a log has got when it has refused some rows. A refused row waits in the buffer
-- and goes out in front of the next one that is taken, although its call has returned `false`; if it
-- is too long for the buffer, some of it may have gone out before the refusal. So the sink holds just
-- the rows that were said to be written if and only if nothing reaches it with a refused row or after
-- one.
import DryKiln.Proofs.Log.Calls
import Mathlib.Data.List.DropRight
import Mathlib.Data.List.Infix

namespace DryKiln

/-! ## The buffer -/

namespace Csv

variable {accepts : WriteAnswers}

/-- Pieces for which there is room all go into the buffer. -/
theorem fill_of_room (accepts : WriteAnswers) (pieces : List Piece) (writes size : Nat)
    (held sent : List UInt8) (h : size + (bytesOf pieces).length ≤ capacity) :
    fill accepts writes size held sent pieces =
      ⟨(bytesOf pieces).reverse ++ held, sent, none, writes⟩ := by
  induction pieces generalizing size held with
  | nil => rfl
  | cons piece pieces ih =>
    rw [bytesOf_cons, List.length_append] at h
    rw [fill, if_pos (by omega), ih _ _ (by omega)]
    simp

/-- If all pieces find room and the sink takes what is in the buffer then, it has taken what it was
given first. -/
theorem accepts_of_fill {pieces : List Piece} {writes size : Nat} {held sent : List UInt8}
    (hstuck : (fill accepts writes size held sent pieces).stuck = none)
    (hlast : accepts (fill accepts writes size held sent pieces).writes = true) :
    accepts writes = true := by
  induction pieces generalizing size held with
  | nil => exact hlast
  | cons piece pieces ih =>
    rw [fill] at hstuck hlast
    split at hstuck
    · next hroom =>
      rw [if_pos hroom] at hlast
      exact ih hstuck hlast
    · split at hstuck
      · next htaken => exact htaken
      · cases hstuck

/-- A byte or two. -/
def Piece.IsShort (piece : Piece) : Prop := piece.bytes ≠ [] ∧ piece.bytes.length ≤ 2

theorem closing_short (fields : Nat) (inQuotes : Bool) :
    ∀ piece ∈ closing fields inQuotes, piece.IsShort := by
  cases inQuotes <;> simp [closing, Piece.IsShort]

theorem character_short (fields : Nat) (inQuotes : Bool) (c : Char) :
    ∀ piece ∈ character fields inQuotes c, piece.IsShort := by
  intro piece hpiece
  unfold character at hpiece
  split at hpiece
  · rw [List.mem_singleton] at hpiece
    simp [hpiece, Piece.IsShort]
  · obtain ⟨byte, -, rfl⟩ := List.mem_map.mp hpiece
    simp [Piece.IsShort]

theorem opened_short (fields : Nat) (cs : List Char) :
    ∀ piece ∈ opened fields cs, piece.IsShort := by
  intro piece hpiece
  rcases List.mem_append.mp hpiece with h | h
  · exact closing_short fields (needsQuotes cs) piece h
  · obtain ⟨c, -, hc⟩ := List.mem_flatMap.mp h
    exact character_short _ _ c piece hc

theorem pieces_short (fields : Nat) (inQuotes : Bool) (row : List (List Char)) :
    ∀ piece ∈ pieces fields inQuotes row, piece.IsShort := by
  induction row generalizing fields inQuotes with
  | nil => simp [pieces]
  | cons cs rest ih =>
    intro piece hpiece
    simp only [pieces, List.mem_append] at hpiece
    rcases hpiece with (h | h) | h
    · unfold separator at h
      split at h
      · cases h
      · rcases List.mem_append.mp h with h | h
        · exact closing_short _ _ piece h
        · simp [List.mem_singleton.mp h, Piece.IsShort]
    · exact opened_short _ _ piece h
    · exact ih _ _ piece h

theorem wholeRow_short (row : List (List Char)) : ∀ piece ∈ wholeRow row, piece.IsShort := by
  intro piece hpiece
  simp only [wholeRow, List.mem_append, List.mem_singleton] at hpiece
  rcases hpiece with (h | h) | h
  · exact pieces_short _ _ _ piece h
  · exact closing_short _ _ piece h
  · simp [h, Piece.IsShort]

/-- A buffer that holds something goes on to hold something. -/
theorem fill_held_ne_nil (accepts : WriteAnswers) {pieces : List Piece} (writes size : Nat)
    {held : List UInt8} (sent : List UInt8) (hshort : ∀ piece ∈ pieces, piece.IsShort)
    (h : held ≠ []) : (fill accepts writes size held sent pieces).held ≠ [] := by
  induction pieces generalizing writes size held sent with
  | nil => exact h
  | cons piece pieces ih =>
    have hpiece : piece.bytes ≠ [] := (hshort piece List.mem_cons_self).1
    have hrest := fun other hother => hshort other (List.mem_cons_of_mem piece hother)
    rw [fill]
    split
    · exact ih _ _ _ hrest (by simp [hpiece])
    · split
      · exact ih _ _ _ hrest (by simpa using hpiece)
      · exact h

@[simp] theorem held_buffer (filled : Filled) (fields : Nat) (inQuotes : Bool) :
    (filled.buffer fields inQuotes).held = filled.held := by
  unfold Filled.buffer
  split <;> rfl

namespace Buffer

/-- After some pieces a buffer holds something: what is short goes into an empty one. -/
theorem gather_held_ne_nil (buffer : Buffer) (accepts : WriteAnswers) {pieces : List Piece}
    (hne : pieces ≠ []) (hshort : ∀ piece ∈ pieces, piece.IsShort) :
    (buffer.gather accepts pieces).held ≠ [] := by
  rw [gather]
  by_cases hheld : buffer.held = []
  · rw [hheld]
    cases pieces with
    | nil => exact absurd rfl hne
    | cons piece pieces =>
      obtain ⟨hpiece, hlength⟩ := hshort piece List.mem_cons_self
      have hroom : List.length ([] : List UInt8) + piece.bytes.length ≤ capacity := by
        simp only [List.length_nil, capacity]
        omega
      rw [fill, if_pos hroom]
      exact fill_held_ne_nil _ _ _ _
        (fun other hother => hshort other (List.mem_cons_of_mem _ hother)) (by simpa using hpiece)
  · exact fill_held_ne_nil _ _ _ _ hshort hheld

theorem addRefused_held_ne_nil (buffer : Buffer) (row : List (List Char)) (accepts : WriteAnswers) :
    (buffer.addRefused row accepts).1.held ≠ [] := by
  have hne : wholeRow row ≠ [] := by simp [wholeRow]
  simpa [addRefused] using buffer.gather_held_ne_nil accepts hne (wholeRow_short row)

theorem addBehind_held_ne_nil (buffer : Buffer) (hodd : buffer.isEven = false)
    {row : List (List Char)} (hrow : row ≠ []) (accepts : WriteAnswers) :
    (buffer.addBehind row accepts).1.held ≠ [] := by
  have hfields : buffer.fields ≠ 0 := by simpa [isEven] using hodd
  have hne : pieces buffer.fields buffer.inQuotes row ≠ [] := by
    cases row with
    | nil => exact absurd rfl hrow
    | cons cs rest => simp [pieces, separator, hfields]
  simpa [addBehind] using buffer.gather_held_ne_nil accepts hne (pieces_short _ _ row)

theorem gather_of_room {buffer : Buffer} {row : List (List Char)} (accepts : WriteAnswers)
    (h : buffer.held.length + (Utf8.encode (Csv.row row)).length ≤ capacity) :
    buffer.gather accepts (wholeRow row) =
      ⟨(Utf8.encode (Csv.row row)).reverse ++ buffer.held, [], none, 0⟩ := by
  rw [← bytesOf_wholeRow] at h ⊢
  exact fill_of_room accepts (wholeRow row) 0 _ _ [] h

/-- A row for which there is room waits in the buffer behind what is there. -/
theorem addRefused_of_room {buffer : Buffer} {row : List (List Char)} (accepts : WriteAnswers)
    (h : buffer.held.length + (Utf8.encode (Csv.row row)).length ≤ capacity) :
    buffer.addRefused row accepts =
      (⟨(Utf8.encode (Csv.row row)).reverse ++ buffer.held, 0, false⟩, []) := by
  rw [addRefused, gather_of_room accepts h]
  rfl

/-- A row for which there is room goes out with the first write. -/
theorem goesOut_of_room {buffer : Buffer} {row : List (List Char)} (accepts : WriteAnswers)
    (h : buffer.held.length + (Utf8.encode (Csv.row row)).length ≤ capacity) :
    buffer.goesOut row accepts = accepts 0 := by
  rw [goesOut, gather_of_room accepts h]
  rfl

theorem accepts_of_goesOut {buffer : Buffer} {row : List (List Char)}
    (h : buffer.goesOut row accepts = true) : accepts 0 = true := by
  obtain ⟨hstuck, hlast⟩ := Bool.and_eq_true_iff.mp h
  exact accepts_of_fill (Option.isNone_iff_eq_none.mp hstuck) hlast

end Buffer
end Csv

namespace LogWriter

/-! ## Nothing but the rows that were said to be written -/

theorem held_of_refused {log : LogWriter} {call : Call} (h : (log.note call).refused = true) :
    (log.next call).buffer.held ≠ [] := by
  simp only [Note.refused, Bool.and_eq_true, Bool.not_eq_true'] at h
  have hrow : (log.note call).row.map String.toList ≠ [] := by simpa using log.row_ne_nil call
  cases log.did call with
  | skipped hdue => rw [hdue] at h; cases h.1
  | behind _ hodd _ _ hnext =>
    rw [hnext]
    exact Csv.Buffer.addBehind_held_ne_nil _ hodd hrow _
  | wrote _ _ _ hwrote => rw [hwrote] at h; cases h.2
  | refused _ _ _ _ _ hnext =>
    rw [hnext]
    exact Csv.Buffer.addRefused_held_ne_nil _ _ _

/-- What is in the buffer stays there as long as nothing reaches the sink. -/
theorem held_of_unsent {log : LogWriter} {call : Call} (h : log.buffer.held ≠ [])
    (hsent : (log.note call).sent = "") : (log.next call).buffer.held ≠ [] := by
  cases log.did call with
  | skipped _ _ _ hnext => rw [hnext]; exact h
  | behind hdue _ hwrote => exact held_of_refused (by simp [Note.refused, hdue, hwrote])
  | wrote _ _ _ _ hsent' =>
    rw [hsent', String.append_eq_empty_iff] at hsent
    exact absurd hsent.2 (csvLine_ne_empty _)
  | refused hdue _ _ hwrote => exact held_of_refused (by simp [Note.refused, hdue, hwrote])

/-- The rows of the calls that have returned `true`, as a text. -/
def toldTrue (notes : List Note) : String := rowsText (rowsWhere Note.wrote notes)

theorem toldTrue_cons (note : Note) (notes : List Note) :
    toldTrue (note :: notes) =
      (if note.wrote then csvLine note.row else "") ++ toldTrue notes := by
  rw [toldTrue, rowsWhere_cons]
  split <;> simp [toldTrue]

/-- What a call sends ends with its row, if it returns `true`. -/
theorem sent_eq (log : LogWriter) (call : Call) :
    ∃ before, (log.note call).sent =
      before ++ (if (log.note call).wrote then csvLine (log.note call).row else "") ∧
      ((log.note call).wrote = true → log.buffer.held ≠ [] → before ≠ "") := by
  cases log.did call with
  | skipped _ hwrote hsent => exact ⟨"", by simp [hwrote, hsent], by simp [hwrote]⟩
  | behind _ _ hwrote hsent => exact ⟨_, by simp [hwrote, hsent]; rfl, by simp [hwrote]⟩
  | wrote _ _ _ hwrote hsent =>
    exact ⟨_, by simp only [hwrote, if_true]; exact hsent, fun _ h => textOf_ne_empty h⟩
  | refused _ _ _ hwrote hsent => exact ⟨_, by simp [hwrote, hsent]; rfl, by simp [hwrote]⟩

theorem length_told_cons (log : LogWriter) (call : Call) (calls : List Call) (closing : Bool) :
    ∃ before : String,
      (log.told (call :: calls) closing).length + (toldTrue ((log.next call).notes calls)).length =
        before.length + ((log.next call).told calls closing).length +
          (toldTrue (log.notes (call :: calls))).length ∧
      ((log.note call).wrote = false → (log.note call).sent = before) ∧
      ((log.note call).wrote = true → log.buffer.held ≠ [] → before ≠ "") := by
  obtain ⟨before, hsent, hheld⟩ := log.sent_eq call
  refine ⟨before, ?_, fun hwrote => ?_, hheld⟩
  · rw [told_cons, notes, toldTrue_cons, hsent]
    simp only [String.length_append]
    omega
  · rw [hsent, hwrote]
    simp

/-- The sink gets no less than what was said to be written. -/
theorem length_toldTrue_le (log : LogWriter) (calls : List Call) (closing : Bool) :
    (toldTrue (log.notes calls)).length ≤ (log.told calls closing).length := by
  induction calls generalizing log with
  | nil => simp [notes, toldTrue, rowsWhere]
  | cons call calls ih =>
    obtain ⟨before, hlength, -⟩ := log.length_told_cons call calls closing
    have := ih (log.next call)
    omega

theorem eq_empty_of_length {s : String} (h : s.length ≤ 0) : s = "" :=
  String.length_eq_zero_iff.mp (Nat.le_zero.mp h)

/-- If something is in the buffer and the sink gets no more than what is said to be written, then
it gets nothing. -/
theorem silent_of_held {log : LogWriter} (hheld : log.buffer.held ≠ []) (calls : List Call)
    {closing : Bool}
    (h : (log.told calls closing).length ≤ (toldTrue (log.notes calls)).length) :
    (∀ note ∈ log.notes calls, note.sent = "") ∧ log.lastSent calls closing = "" := by
  induction calls generalizing log with
  | nil =>
    have hnone : (log.told [] closing).length ≤ 0 := by
      simpa [notes, toldTrue, rowsWhere] using h
    exact ⟨by simp [notes], eq_empty_of_length hnone⟩
  | cons call calls ih =>
    obtain ⟨before, hlength, hsent, hwrote⟩ := log.length_told_cons call calls closing
    have hle := length_toldTrue_le (log.next call) calls closing
    have hbefore : before = "" := eq_empty_of_length (by omega)
    have hnot : (log.note call).wrote = false := by
      by_contra htrue
      exact hwrote (by simpa using htrue) hheld hbefore
    have hfirst : (log.note call).sent = "" := (hsent hnot).trans hbefore
    have hlengths : before.length = 0 := by rw [hbefore]; rfl
    obtain ⟨hnotes, hlast⟩ := ih (held_of_unsent hheld hfirst) (by omega)
    exact ⟨List.forall_mem_cons.mpr ⟨hfirst, hnotes⟩, hlast⟩

theorem quiet_of_told {log : LogWriter} {calls : List Call} {closing : Bool}
    (h : (log.told calls closing).length ≤ (toldTrue (log.notes calls)).length) :
    Quiet (log.notes calls) (log.lastSent calls closing) := by
  induction calls generalizing log with
  | nil => exact ⟨List.Pairwise.nil, by simp [notes]⟩
  | cons call calls ih =>
    obtain ⟨before, hlength, hsent, -⟩ := log.length_told_cons call calls closing
    have hle := length_toldTrue_le (log.next call) calls closing
    have hrest : ((log.next call).told calls closing).length ≤
        (toldTrue ((log.next call).notes calls)).length := by omega
    obtain ⟨hpairs, hlast⟩ := ih hrest
    have hnothing : (log.note call).refused = true → (log.note call).sent = "" := by
      intro hrefused
      simp only [Note.refused, Bool.and_eq_true, Bool.not_eq_true'] at hrefused
      exact (hsent hrefused.2).trans (eq_empty_of_length (by omega))
    have hsilent : (log.note call).refused = true →
        (∀ note ∈ (log.next call).notes calls, note.sent = "") ∧
          (log.next call).lastSent calls closing = "" :=
      fun hrefused => silent_of_held (held_of_refused hrefused) calls hrest
    refine ⟨List.pairwise_cons.mpr ⟨fun later hlater hrefused => (hsilent hrefused).1 later hlater,
      hpairs⟩, List.forall_mem_cons.mpr
        ⟨fun hrefused => ⟨hnothing hrefused, (hsilent hrefused).2⟩, hlast⟩⟩

theorem told_of_quiet {log : LogWriter} (hbuffer : log.buffer = .empty) {calls : List Call}
    {closing : Bool} (h : Quiet (log.notes calls) (log.lastSent calls closing)) :
    log.told calls closing = toldTrue (log.notes calls) := by
  induction calls generalizing log with
  | nil =>
    have hlast : log.lastSent [] closing = "" := by
      simp [lastSent, after, close, hbuffer, Csv.Buffer.empty, textOf, Utf8.decode,
        Utf8.decodeFrom]
    simp [told, notes, toldTrue, rowsWhere, hlast]
  | cons call calls ih =>
    obtain ⟨hpairs, hlast⟩ := h
    obtain ⟨hfirst, hpairs⟩ := List.pairwise_cons.mp hpairs
    obtain ⟨hclose, hlast⟩ := List.forall_mem_cons.mp hlast
    have hrest : Quiet ((log.next call).notes calls) ((log.next call).lastSent calls closing) :=
      ⟨hpairs, hlast⟩
    rw [told_cons, notes, toldTrue_cons]
    cases log.did call with
    | skipped _ hwrote hsent hnext =>
      have hnext' : (log.next call).buffer = .empty := by rw [hnext]; exact hbuffer
      rw [hsent, hwrote, ih hnext' hrest]
      simp
    | behind _ hodd => rw [hbuffer] at hodd; cases hodd
    | wrote _ _ _ hwrote hsent hnext =>
      have hnone : textOf log.buffer.held = "" := by rw [hbuffer]; rfl
      have hnext' : (log.next call).buffer = .empty := by rw [hnext]
      rw [hsent, hwrote, ih hnext' hrest, hnone]
      simp
    | refused hdue _ _ hwrote =>
      have hrefused : (log.note call).refused = true := by simp [Note.refused, hdue, hwrote]
      obtain ⟨hsent, hclose⟩ := hclose hrefused
      have hnothing : (log.next call).told calls closing = "" := by
        have hsilent : ∀ note ∈ (log.next call).notes calls, note.sent = "" :=
          fun note hnote => hfirst note hnote hrefused
        rw [told, sentBy_eq_empty hsilent]
        exact hclose
      have hle := length_toldTrue_le (log.next call) calls closing
      rw [hnothing] at hle
      rw [hsent, hwrote, hnothing, eq_empty_of_length hle]
      rfl

/-! ## Rows that wait -/

/-- The needed rows up to the last call that has returned `true`. -/
def reached (notes : List Note) : List (List String) :=
  rowsWhere Note.due (notes.rdropWhile fun note => !note.wrote)

/-- The needed rows after the last call that has returned `true`. -/
def waiting (notes : List Note) : List (List String) :=
  rowsWhere Note.due (notes.rtakeWhile fun note => !note.wrote)

theorem reached_append_waiting (notes : List Note) :
    reached notes ++ waiting notes = rowsWhere Note.due notes := by
  rw [reached, waiting, ← rowsWhere_append, List.rdropWhile_append_rtakeWhile]

theorem reached_concat (notes : List Note) (note : Note) :
    reached (notes ++ [note]) =
      if note.wrote then rowsWhere Note.due (notes ++ [note]) else reached notes := by
  rw [reached, List.rdropWhile_concat]
  cases note.wrote <;> rfl

theorem waiting_concat (notes : List Note) (note : Note) :
    waiting (notes ++ [note]) =
      if note.wrote then [] else waiting notes ++ rowsWhere Note.due [note] := by
  rw [waiting, List.rtakeWhile_concat]
  cases note.wrote
  · simp [waiting, rowsWhere_append]
  · rfl

/-- There is room in the buffer for all rows that wait at any time. -/
def Fits (notes : List Note) : Prop :=
  ∀ before ∈ notes.inits, (rowsText (waiting before)).utf8ByteSize ≤ Csv.capacity

instance (notes : List Note) : Decidable (Fits notes) :=
  inferInstanceAs (Decidable (∀ before ∈ notes.inits, _))

theorem Fits.whole {notes : List Note} (h : Fits notes) :
    (rowsText (waiting notes)).utf8ByteSize ≤ Csv.capacity :=
  h notes ((List.mem_inits _ _).mpr List.prefix_rfl)

theorem Fits.init {notes : List Note} {note : Note} (h : Fits (notes ++ [note])) : Fits notes :=
  fun before hbefore => h before ((List.mem_inits _ _).mpr
    (((List.mem_inits _ _).mp hbefore).trans (List.prefix_append _ _)))

/-- How things are after some calls for which there was room. -/
structure Kept (log : LogWriter) (notes : List Note) : Prop where
  buffer : log.buffer = ⟨(Utf8.encode (rowsText (waiting notes)).toList).reverse, 0, false⟩
  sent : sentBy notes = rowsText (reached notes)
  wrote : ∀ note ∈ notes, note.wrote = (note.due && note.accepts)

theorem Kept.held {log : LogWriter} {notes : List Note} (h : Kept log notes) :
    textOf log.buffer.held = rowsText (waiting notes) := by
  rw [h.buffer]
  exact textOf_encode _

theorem Kept.next {log : LogWriter} {notes : List Note} (h : Kept log notes) (call : Call)
    (hfits : Fits (notes ++ [log.note call])) :
    Kept (log.next call) (notes ++ [log.note call]) := by
  cases log.did call with
  | skipped hdue hwrote hsent hnext =>
    refine ⟨?_, ?_, ?_⟩
    · simp [hnext, h.buffer, waiting_concat, hwrote, rowsWhere_singleton, hdue]
    · simp [sentBy_append, h.sent, hsent, reached_concat, hwrote]
    · simpa [or_imp, forall_and, hwrote, hdue] using h.wrote
  | behind _ hodd => rw [h.buffer] at hodd; cases hodd
  | wrote hdue _ hout hwrote hsent hnext =>
    refine ⟨?_, ?_, ?_⟩
    · rw [hnext, waiting_concat, hwrote]
      rfl
    · rw [sentBy_append, h.sent, reached_concat, hwrote, if_pos rfl, rowsWhere_append,
        ← reached_append_waiting, rowsWhere_singleton, hdue, sentBy_cons, hsent, h.held]
      simp
    · have hlast : (log.note call).accepts = true := Csv.Buffer.accepts_of_goesOut hout
      simpa [or_imp, forall_and, hwrote, hdue, hlast] using h.wrote
  | refused hdue _ hout hwrote hsent hnext =>
    have hwaiting : waiting (notes ++ [log.note call]) =
        waiting notes ++ [(log.note call).row] := by
      simp [waiting_concat, hwrote, rowsWhere_singleton, hdue]
    have hroom : log.buffer.held.length +
        (Utf8.encode (Csv.row ((log.note call).row.map String.toList))).length ≤ Csv.capacity := by
      have hwhole := hfits.whole
      rw [hwaiting, ← Utf8.length_encode] at hwhole
      rw [h.buffer]
      simpa [csvLine, Nat.add_comm] using hwhole
    rw [Csv.Buffer.addRefused_of_room _ hroom] at hsent hnext
    refine ⟨?_, ?_, ?_⟩
    · rw [hnext, h.buffer, hwaiting]
      simp [csvLine]
    · rw [sentBy_append, h.sent, reached_concat, hwrote, sentBy_cons, hsent]
      simp [textOf, Utf8.decode, Utf8.decodeFrom]
    · have hlast : (log.note call).accepts = false :=
        (Csv.Buffer.goesOut_of_room _ hroom).symm.trans hout
      simpa [or_imp, forall_and, hwrote, hdue, hlast] using h.wrote

theorem kept (resolution openedAt : Int) (calls : List Call)
    (hfits : Fits ((opened resolution openedAt).notes calls)) :
    Kept ((opened resolution openedAt).after calls) ((opened resolution openedAt).notes calls) := by
  induction calls using List.reverseRecOn with
  | nil => exact ⟨rfl, rfl, by simp [notes]⟩
  | append_singleton calls call ih =>
    rw [notes_concat] at hfits ⊢
    rw [after_concat]
    exact (ih hfits.init).next call hfits

/-- With room for all rows that wait, the sink gets the needed rows up to the last call that has
returned `true`, and if it takes something when the log is closed, also those after it. -/
theorem told_of_fits {resolution openedAt : Int} {calls : List Call} (closing : Bool)
    (hfits : Fits ((opened resolution openedAt).notes calls)) :
    (opened resolution openedAt).told calls closing =
      rowsText (reached ((opened resolution openedAt).notes calls) ++
        if closing then waiting ((opened resolution openedAt).notes calls) else []) := by
  have hkept := kept resolution openedAt calls hfits
  have hopen : ((opened resolution openedAt).after calls).isOpen = true := isOpen_after _ _
  cases closing <;> simp [told, lastSent, close, hopen, hkept.sent, hkept.held]

/-- Whatever the sink takes and refuses, one write after the other: it gets just the rows of the calls
that have returned `true`, if and only if nothing reaches it with a refused row or after one. If
there is room for all rows that wait, the same holds of the complete rows that can be read there;
they are the needed rows up to the last call that has returned `true`, those of refused calls among
them, and if the sink takes something when the log is closed, also the ones that still wait. -/
theorem sink_has_the_rows_told_iff_quiet (resolution openedAt : Int) (calls : List Call)
    (closing : Bool) :
    let log := opened resolution openedAt
    let notes := log.notes calls
    let sink := log.told calls closing
    let told := rowsWhere Note.wrote notes
    let quiet := Quiet notes (log.lastSent calls closing)
    (sink = rowsText told ↔ quiet) ∧ (quiet → recordsOf sink = told) ∧
      (Fits notes →
        (recordsOf sink = told ↔ quiet) ∧
        (∀ note ∈ notes, note.wrote = (note.due && note.accepts)) ∧
        recordsOf sink = reached notes ++ if closing then waiting notes else []) := by
  intro log notes sink told quiet
  have hread : recordsOf (rowsText told) = told := recordsOf_rowsText ne_nil_of_mem_rowsWhere
  have hquiet : quiet → sink = rowsText told := told_of_quiet rfl
  have hiff : sink = rowsText told ↔ quiet :=
    ⟨fun h => quiet_of_told (congrArg String.length h).le, hquiet⟩
  refine ⟨hiff, fun h => by rw [hquiet h, hread], fun hfits => ?_⟩
  have hsink : sink = rowsText (reached notes ++ if closing then waiting notes else []) :=
    told_of_fits closing hfits
  have hrows : ∀ row ∈ reached notes ++ (if closing then waiting notes else []), row ≠ [] := by
    intro row hrow
    have hmem : row ∈ reached notes ++ waiting notes := by
      cases closing <;> simp_all
    rw [reached_append_waiting] at hmem
    exact ne_nil_of_mem_rowsWhere row hmem
  have hrecords : recordsOf sink = reached notes ++ if closing then waiting notes else [] := by
    rw [hsink, recordsOf_rowsText hrows]
  refine ⟨⟨fun h => hiff.mp ?_, fun h => by rw [hquiet h, hread]⟩,
    (kept resolution openedAt calls hfits).wrote, hrecords⟩
  rw [hsink, ← hrecords, h]

/-- A run that heats up. -/
def heatingUp : Status := { Status.initial ⟨"oak", [], none⟩ with stepName := "up" }

/-- A row that is refused once and taken a second later is in the sink twice: as the row that was
refused and as the one that was said to be written. -/
theorem refused_row_waits_for_the_next :
    let calls : List Call := [⟨heatingUp, 0, fun _ => false⟩, ⟨heatingUp, 1, fun _ => true⟩]
    let notes := (opened 60 0).notes calls
    Fits notes ∧
      recordsOf ((opened 60 0).told calls true) = reached notes ++ waiting notes ∧
      reached notes = [["0", "up", "0", "0.0", "0.0", "0", "0", "0"],
        ["1", "up", "1", "0.0", "0.0", "0", "0", "0"]] := by
  intro calls notes
  have hfits : Fits notes := by decide +kernel
  exact ⟨hfits, ((sink_has_the_rows_told_iff_quiet 60 0 _ true).2.2 hfits).2.2, by decide +kernel⟩

/-- The sink has a row whose call has returned `false`. -/
theorem refused_row_reaches_the_sink :
    let calls : List Call := [⟨heatingUp, 0, fun _ => false⟩, ⟨heatingUp, 1, fun _ => true⟩]
    let notes := (opened 60 0).notes calls
    notes.map Note.wrote = [false, true] ∧
      recordsOf ((opened 60 0).told calls true) ≠ rowsWhere Note.wrote notes := by
  decide +kernel

end LogWriter
end DryKiln
