-- A store of runs without any files: two maps from names to what is kept of a run, one for the
-- runs that are going on and one for the history. A call answers, and changes what is kept of the
-- run that it names; only a sweep changes more than one run.
import DryKiln.Storage.Basic
import Mathlib.Data.DFinsupp.Defs
import Mathlib.Data.Finset.Sort
import Mathlib.Data.String.Basic

namespace DryKiln

/-! ## Two maps -/

/-- What is kept of a run. -/
structure Parts where
  program : Option Program
  state : Option RunState
  log : Option String
deriving DecidableEq, Repr

namespace Parts

/-- Nothing is kept. -/
instance : Zero Parts := ⟨⟨none, none, none⟩⟩

theorem ne_zero_of_program {parts : Parts} (h : parts.program ≠ none) : parts ≠ 0 := by
  rintro rfl
  exact h rfl

/-- What has been moved, over what was there. -/
def onto (moved old : Parts) : Parts :=
  ⟨moved.program.or old.program, moved.state.or old.state, moved.log.or old.log⟩

end Parts

/-- A map from the names of runs. Of all but finitely many names nothing is kept. -/
abbrev RunMap := Π₀ _ : String, Parts

/-- The names that have a program, sorted. -/
def RunMap.names (runs : RunMap) : List String :=
  (runs.support.filter fun run => (runs run).program ≠ none).sort (· ≤ ·)

theorem RunMap.mem_names_iff (runs : RunMap) (run : String) :
    run ∈ runs.names ↔ (runs run).program ≠ none := by
  rw [names, Finset.mem_sort, Finset.mem_filter, DFinsupp.mem_support_iff]
  exact ⟨fun h => h.2, fun h => ⟨Parts.ne_zero_of_program h, h⟩⟩

/-- There is one sorted row without duplicates of the names that have a program. -/
theorem RunMap.eq_names {runs : RunMap} {names : List String} (hsorted : names.Pairwise (· ≤ ·))
    (hnodup : names.Nodup) (hmem : ∀ run, run ∈ names ↔ (runs run).program ≠ none) :
    names = runs.names := by
  have hset : runs.support.filter (fun run => (runs run).program ≠ none) = names.toFinset := by
    ext run
    rw [List.mem_toFinset, hmem, ← runs.mem_names_iff, RunMap.names, Finset.mem_sort]
  rw [RunMap.names, hset]
  exact ((List.toFinset_sort (· ≤ ·) hnodup).mpr hsorted).symm

@[ext]
structure Ledger where
  running : RunMap
  history : RunMap

namespace Ledger

def empty : Ledger := ⟨0, 0⟩

/-- Other parts of a run that is going on. -/
def put (ledger : Ledger) (run : String) (parts : Parts) : Ledger :=
  { ledger with running := ledger.running.update run parts }

/-- Whatever there is of a run goes into the history. -/
def archive (ledger : Ledger) (run : String) : Ledger where
  running := ledger.running.update run 0
  history := ledger.history.update run ((ledger.running run).onto (ledger.history run))

/-- Every run with a program is canceled and goes into the history. -/
def sweep (ledger : Ledger) : Ledger where
  running := ledger.running.filter fun run => (ledger.running run).program = none
  history := DFinsupp.zipWith
    (fun _ running history =>
      if running.program = none then history
      else { running with state := some .canceled }.onto history)
    (fun _ => rfl) ledger.running ledger.history

section Moves

variable (ledger : Ledger) (run other : String)

theorem put_running_apply (parts : Parts) : (ledger.put run parts).running other =
    if other = run then parts else ledger.running other := by
  rw [put, DFinsupp.coe_update, Function.update_apply]

theorem archive_running_apply : (ledger.archive run).running other =
    if other = run then 0 else ledger.running other := by
  rw [archive, DFinsupp.coe_update, Function.update_apply]

theorem archive_history_apply : (ledger.archive run).history other =
    if other = run then (ledger.running run).onto (ledger.history run)
    else ledger.history other := by
  rw [archive, DFinsupp.coe_update, Function.update_apply]

theorem sweep_running_apply : ledger.sweep.running run =
    if (ledger.running run).program = none then ledger.running run else 0 := by
  rw [sweep, DFinsupp.filter_apply]

theorem sweep_history_apply : ledger.sweep.history run =
    if (ledger.running run).program = none then ledger.history run
    else { ledger.running run with state := some .canceled }.onto (ledger.history run) := by
  rw [sweep, DFinsupp.zipWith_apply]

end Moves

/-- The runs that are over. A run without a state in the history is in an unknown one. -/
def entries (ledger : Ledger) : List (String × RunState) :=
  ledger.history.names.map fun run => (run, (ledger.history run).state.getD .unknown)

end Ledger

/-! ## Calls -/

/-- What is asked of a store of runs. -/
inductive LedgerCall where
  | create (run : String) (program : Program)
  | store (run : String) (state : RunState)
  | openLog (run : String)
  | archive (run : String)
  | sweep
  | listRunning
  | listHistory

/-- What a call gives, if it has no fault. -/
inductive LedgerAnswer where
  | done
  | names (runs : List String)
  | entries (runs : List (String × RunState))
deriving DecidableEq, Repr

namespace LedgerCall

/-- The run that a call is about. -/
def run? : LedgerCall → Option String
  | create run _ | store run _ | openLog run | archive run => some run
  | sweep | listRunning | listHistory => none

section Calls

variable {σ : Type} (perform : σ → LedgerCall → σ × Except StorageFault LedgerAnswer)

/-- What calls make of a store. -/
def after (state : σ) (calls : List LedgerCall) : σ :=
  calls.foldl (fun state call => (perform state call).1) state

/-- What calls answer, one after the other. -/
def answers : σ → List LedgerCall → List (Except StorageFault LedgerAnswer)
  | _, [] => []
  | state, call :: calls => (perform state call).2 :: answers (perform state call).1 calls

end Calls

end LedgerCall

namespace Ledger

def perform (ledger : Ledger) : LedgerCall → Ledger × Except StorageFault LedgerAnswer
  | .create run program =>
    if (ledger.running run).program = none then
      (ledger.put run { ledger.running run with program := some program }, .ok .done)
    else (ledger, .error (.runExists run))
  | .store run state =>
    (ledger.put run { ledger.running run with state := some state }, .ok .done)
  | .openLog run => (ledger.put run { ledger.running run with log := some "" }, .ok .done)
  | .archive run => (ledger.archive run, .ok .done)
  | .sweep => (ledger.sweep, .ok (.names ledger.running.names))
  | .listRunning => (ledger, .ok (.names ledger.running.names))
  | .listHistory => (ledger, .ok (.entries ledger.entries))

/-! ## Calls about different runs -/

/-- Other parts of one run, on both shelves. -/
def change (ledger : Ledger) (run : String) (f : Parts → Parts → Parts × Parts) : Ledger where
  running := ledger.running.update run (f (ledger.running run) (ledger.history run)).1
  history := ledger.history.update run (f (ledger.running run) (ledger.history run)).2

section Change

variable (ledger : Ledger) {run other : String} (f g : Parts → Parts → Parts × Parts)

theorem change_running_apply (run other : String) : (ledger.change run f).running other =
    if other = run then (f (ledger.running run) (ledger.history run)).1
    else ledger.running other := by
  rw [change, DFinsupp.coe_update, Function.update_apply]

theorem change_history_apply (run other : String) : (ledger.change run f).history other =
    if other = run then (f (ledger.running run) (ledger.history run)).2
    else ledger.history other := by
  rw [change, DFinsupp.coe_update, Function.update_apply]

theorem change_comm (h : run ≠ other) :
    (ledger.change run f).change other g = (ledger.change other g).change run f := by
  have hrunning : ((ledger.change run f).change other g).running =
      ((ledger.change other g).change run f).running := by
    ext1 name
    simp only [change_running_apply, change_history_apply, if_neg h, if_neg h.symm]
    by_cases hname : name = run
    · rw [hname, if_neg h, if_pos rfl, if_pos rfl]
    · simp only [if_neg hname]
  have hhistory : ((ledger.change run f).change other g).history =
      ((ledger.change other g).change run f).history := by
    ext1 name
    simp only [change_running_apply, change_history_apply, if_neg h, if_neg h.symm]
    by_cases hname : name = run
    · rw [hname, if_neg h, if_pos rfl, if_pos rfl]
    · simp only [if_neg hname]
  exact Ledger.ext hrunning hhistory

end Change

theorem put_eq_change (ledger : Ledger) (run : String) (f : Parts → Parts) :
    ledger.put run (f (ledger.running run)) =
      ledger.change run fun running history => (f running, history) := by
  simp [put, change]

/-- A call about a run looks only at what is kept of that run, and changes nothing else. -/
theorem perform_of_run {call : LedgerCall} {run : String} (h : call.run? = some run) :
    ∃ (f : Parts → Parts → Parts × Parts) (answer : Parts → Except StorageFault LedgerAnswer),
      ∀ ledger : Ledger,
        ledger.perform call = (ledger.change run f, answer (ledger.running run)) := by
  cases call with
  | create run program =>
    cases h
    refine ⟨fun running history =>
        (if running.program = none then { running with program := some program } else running,
          history),
      fun running => if running.program = none then .ok .done else .error (.runExists run), ?_⟩
    intro ledger
    rw [← put_eq_change ledger run fun running =>
      if running.program = none then { running with program := some program } else running]
    by_cases hfree : (ledger.running run).program = none
    · simp [perform, hfree]
    · simp [perform, hfree, put]
  | store run state =>
    cases h
    refine ⟨fun running history => ({ running with state := some state }, history),
      fun _ => .ok .done, fun ledger => ?_⟩
    rw [← put_eq_change ledger run fun running => { running with state := some state }]
    rfl
  | openLog run =>
    cases h
    refine ⟨fun running history => ({ running with log := some "" }, history),
      fun _ => .ok .done, fun ledger => ?_⟩
    rw [← put_eq_change ledger run fun running => { running with log := some "" }]
    rfl
  | archive run =>
    cases h
    exact ⟨fun running history => (0, running.onto history), fun _ => .ok .done, fun ledger => rfl⟩
  | sweep => cases h
  | listRunning => cases h
  | listHistory => cases h

theorem perform_elsewhere {call : LedgerCall} {run other : String} (hcall : call.run? = some run)
    (hne : other ≠ run) (ledger : Ledger) :
    (ledger.perform call).1.running other = ledger.running other ∧
      (ledger.perform call).1.history other = ledger.history other := by
  obtain ⟨f, answer, hperform⟩ := perform_of_run hcall
  rw [hperform, change_running_apply, change_history_apply, if_neg hne, if_neg hne]
  exact ⟨rfl, rfl⟩

/-- Calls about different runs do not see each other, and come to the same in either order. -/
theorem perform_comm {first second : LedgerCall} {run other : String}
    (hfirst : first.run? = some run) (hsecond : second.run? = some other) (h : run ≠ other)
    (ledger : Ledger) :
    ((ledger.perform second).1.perform first).2 = (ledger.perform first).2 ∧
      ((ledger.perform first).1.perform second).2 = (ledger.perform second).2 ∧
      ((ledger.perform first).1.perform second).1 =
        ((ledger.perform second).1.perform first).1 := by
  obtain ⟨f, answer, hperform⟩ := perform_of_run hfirst
  obtain ⟨g, answer', hperform'⟩ := perform_of_run hsecond
  simp only [hperform, hperform', change_running_apply, if_neg h, if_neg h.symm, true_and]
  exact change_comm ledger f g h

end Ledger
end DryKiln
