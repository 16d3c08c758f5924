-- What the name of a run tells. Behind the last at-sign of the name stands the second the run was
-- started, so the name tells the program and the second. The names of the runs of one program are
-- in the order in which the runs were started, and in this order the history lists them.
import DryKiln.Proofs.Run.Outcome
import DryKiln.Proofs.Storage.TwoMaps
import DryKiln.Proofs.Text.Order

namespace DryKiln

/-! ## Seconds by their year -/

/-- The second lies in one of the years. -/
def InYears (first last seconds : Int) : Prop :=
  first ≤ (Moment.ofSeconds seconds).date.year ∧ (Moment.ofSeconds seconds).date.year ≤ last

instance (first last seconds : Int) : Decidable (InYears first last seconds) :=
  inferInstanceAs (Decidable (_ ∧ _))

theorem InYears.mono {first last first' last' seconds : Int} (h : InYears first last seconds)
    (hfirst : first' ≤ first) (hlast : last ≤ last') : InYears first' last' seconds :=
  ⟨hfirst.trans h.1, h.2.trans hlast⟩

theorem InYears.calendarRange {seconds : Int} (h : InYears (-262143) 262142 seconds) :
    calendarRange seconds = true :=
  calendarRange_iff.mpr h

/-! ## The two parts of a name -/

theorem eq_nil_of_cons_eq_append {α : Type} {mark : α} {middle after after' : List α}
    (hafter : mark ∉ after) (h : mark :: after = middle ++ mark :: after') :
    middle = [] ∧ after = after' := by
  cases middle with
  | nil => exact ⟨rfl, (List.cons.inj h).2⟩
  | cons first middle =>
    obtain ⟨-, rfl⟩ := List.cons.inj h
    exact absurd (by simp) hafter

/-- A row is cut at the last of its marks in one way only. -/
theorem append_cons_inj_of_not_mem {α : Type} {mark : α} {before before' after after' : List α}
    (hafter : mark ∉ after) (hafter' : mark ∉ after')
    (h : before ++ mark :: after = before' ++ mark :: after') :
    before = before' ∧ after = after' := by
  rcases List.append_eq_append_iff.mp h with ⟨middle, rfl, hrest⟩ | ⟨middle, rfl, hrest⟩
  · obtain ⟨rfl, rfl⟩ := eq_nil_of_cons_eq_append hafter hrest
    exact ⟨(List.append_nil _).symm, rfl⟩
  · obtain ⟨rfl, rfl⟩ := eq_nil_of_cons_eq_append hafter' hrest
    exact ⟨List.append_nil _, rfl⟩

theorem runName_toList_of_inYears (program : String) {seconds : Int}
    (h : InYears (-262143) 262142 seconds) : (runName program seconds).toList =
      program.toList ++ '@' :: (Moment.ofSeconds seconds).text := by
  rw [runName_toList, if_pos h.calendarRange]

theorem runName_inj {program other : String} {seconds started : Int}
    (hseconds : InYears (-262143) 262142 seconds) (hstarted : InYears (-262143) 262142 started)
    (h : runName program seconds = runName other started) :
    program = other ∧ seconds = started := by
  have hrow := congrArg String.toList h
  rw [runName_toList_of_inYears _ hseconds, runName_toList_of_inYears _ hstarted] at hrow
  have hat (m : Moment) : '@' ∉ m.text := fun hmem => absurd (Moment.mem_text hmem) (by decide)
  obtain ⟨hprogram, htext⟩ := append_cons_inj_of_not_mem (hat _) (hat _) hrow
  have hmoment := (Moment.ofSeconds_isValid seconds).isShort.text_injective
    (Moment.ofSeconds_isValid started).isShort htext
  exact ⟨String.toList_inj.mp hprogram, Moment.ofSeconds_injective hmoment⟩

/-! ## The order of names -/

theorem runName_strictMonoOn (program : String) :
    StrictMonoOn (runName program) {seconds | InYears 0 9999 seconds} := by
  intro seconds hseconds started hstarted h
  have htext := ((Moment.ofSeconds_isValid seconds).isShort.text_lt_text_iff
    (Moment.ofSeconds_isValid started).isShort hseconds hstarted).mpr
    (Moment.ofSeconds_strictMono h)
  rw [String.lt_iff_toList_lt, runName_toList_of_inYears _ (hseconds.mono (by decide) (by decide)),
    runName_toList_of_inYears _ (hstarted.mono (by decide) (by decide))]
  exact List.append_left_lt (List.cons_lt_cons_self.mpr htext)

theorem listHistory_sorted {storage : Storage} {tree : FileTree}
    {entries : List (String × Option RunState)} (h : storage.listHistory tree = .ok entries) :
    (entries.map Prod.fst).Pairwise (· ≤ ·) := by
  cases hruns : Storage.runsIn tree storage.historyDir with
  | error fault => simp [Storage.listHistory, hruns, bind, Except.bind] at h
  | ok runs =>
    have hentries : entries.map Prod.fst = runs := by
      simp only [Storage.listHistory, hruns, bind, Except.bind, pure, Except.pure,
        Except.ok.injEq] at h
      simp [← h, Function.comp_def]
    rw [hentries]
    exact Storage.runsIn_sorted hruns

/-- The listed runs of one program stand in the order of their starts. -/
theorem starts_sorted_of_listed {program : String} {names : List String}
    (hnames : names.Pairwise (· ≤ ·)) {starts : List Int}
    (hyears : ∀ seconds ∈ starts, InYears 0 9999 seconds)
    (hlisted : (starts.map (runName program)).Sublist names) : starts.Pairwise (· ≤ ·) := by
  have hsorted := List.pairwise_map.mp (hnames.sublist hlisted)
  refine hsorted.imp_of_mem fun hfirst hsecond hle => ?_
  exact ((runName_strictMonoOn program).le_iff_le (hyears _ hfirst) (hyears _ hsecond)).mp hle

/-- A name tells the program and the second of the start, for every program and every second that
has a date. The names of the runs of one program, in the years that are written without a sign, are
as bytes in the order of the starts, and so they are listed. -/
theorem run_names_tell_program_and_start :
    (∀ (program other : String) (seconds started : Int),
      InYears (-262143) 262142 seconds → InYears (-262143) 262142 started →
      runName program seconds = runName other started → program = other ∧ seconds = started) ∧
    (∀ (program : String) (seconds started : Int),
      InYears 0 9999 seconds → InYears 0 9999 started →
      (Utf8.bytes (runName program seconds) < Utf8.bytes (runName program started) ↔
        seconds < started)) ∧
    ∀ (storage : Storage) (tree : FileTree) (entries : List (String × Option RunState)),
      storage.listHistory tree = .ok entries →
      (entries.map Prod.fst).Pairwise (fun a b => Utf8.bytes a ≤ Utf8.bytes b) ∧
      ∀ (program : String) (starts : List Int), (∀ seconds ∈ starts, InYears 0 9999 seconds) →
        (starts.map (runName program)).Sublist (entries.map Prod.fst) →
        starts.Pairwise (· ≤ ·) := by
  refine ⟨fun _ _ _ _ => runName_inj, ?_, ?_⟩
  · intro program seconds started hseconds hstarted
    rw [Utf8.bytes_lt_bytes_iff]
    exact (runName_strictMonoOn program).lt_iff_lt hseconds hstarted
  · intro storage tree entries h
    have hsorted := listHistory_sorted h
    refine ⟨hsorted.imp Utf8.bytes_le_bytes_iff.mpr, fun program starts hyears hlisted => ?_⟩
    exact starts_sorted_of_listed hsorted hyears hlisted

/-- Two runs of one program in the history. The later one was put there first. -/
def twoOakRuns : FileTree where
  entries := Storage.bareTree.entries ++
    [(["history", "oak@2023-11-14T22:13:20Z.json"], .file 0 (.text "")),
      (["history", "oak@1970-01-01T00:00:00Z.json"], .file 1 (.text ""))]
  nextId := 2

theorem listHistory_twoOakRuns : Storage.listHistory ⟨""⟩ twoOakRuns =
    .ok [(runName "oak" 0, none), (runName "oak" 1700000000, none)] := by
  have hruns : Storage.runsIn twoOakRuns (Storage.historyDir ⟨""⟩) =
      .ok [runName "oak" 0, runName "oak" 1700000000] := by
    have hchildren : twoOakRuns.list (Storage.historyDir ⟨""⟩) =
        .ok (twoOakRuns.children ["history"]) := by decide +kernel
    simp only [Storage.runsIn, hchildren, stored, Except.mapError, bind, Except.bind, pure,
      Except.pure]
    generalize hfound : List.filterMap _ _ = found
    have hnames : found = [runName "oak" 1700000000, runName "oak" 0] := by
      rw [← hfound]
      decide +kernel
    have hgreater : ¬ runName "oak" 1700000000 ≤ runName "oak" 0 := by decide +kernel
    simp [hnames, List.mergeSort, hgreater]
  rw [Storage.listHistory, hruns]
  decide +kernel

/-- A program whose name looks like the name of a run has runs of its own. -/
theorem oak_runs_are_told_apart :
    let oak := "oak@2023-11-14T22:13:20Z"
    runName "oak" 1700000000 = oak ∧
      (∀ program seconds, InYears (-262143) 262142 seconds →
        runName program seconds = oak → program = "oak" ∧ seconds = 1700000000) ∧
      runName oak 0 ≠ runName "oak" 0 ∧
      Utf8.bytes (runName "oak" 0) < Utf8.bytes oak ∧
      Storage.listHistory ⟨""⟩ twoOakRuns = .ok [(runName "oak" 0, none), (oak, none)] ∧
      [0, 1700000000].Pairwise (fun first second : Int => first ≤ second) := by
  intro oak
  have hoak : runName "oak" 1700000000 = oak := by decide +kernel
  have hyears : ∀ seconds ∈ [(0 : Int), 1700000000], InYears 0 9999 seconds := by decide
  have hfirst : InYears 0 9999 0 := hyears 0 (by simp)
  have hsecond : InYears 0 9999 1700000000 := hyears 1700000000 (by simp)
  have hfirst' : InYears (-262143) 262142 0 := hfirst.mono (by decide) (by decide)
  have hsecond' : InYears (-262143) 262142 1700000000 := hsecond.mono (by decide) (by decide)
  obtain ⟨htell, horder, hlist⟩ := run_names_tell_program_and_start
  rw [← hoak]
  refine ⟨rfl, ?_, ?_, ?_, listHistory_twoOakRuns, ?_⟩
  · intro program seconds hseconds hname
    exact htell program "oak" seconds 1700000000 hseconds hsecond' hname
  · intro hsame
    exact absurd (htell _ _ _ _ hfirst' hfirst' hsame).1 (by decide +kernel)
  · exact (horder "oak" 0 1700000000 hfirst hsecond).mpr (by decide)
  · exact (hlist _ _ _ listHistory_twoOakRuns).2 "oak" _ hyears (.refl _)

end DryKiln
