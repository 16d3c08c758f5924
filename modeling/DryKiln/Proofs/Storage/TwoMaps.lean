-- The files of a storage are two maps. What is kept of a run on a shelf is what its files there
-- hold; each call changes the files as it changes the maps, and answers from both the same.
import DryKiln.Proofs.Storage.Fresh
import DryKiln.Proofs.Storage.Ledger

namespace DryKiln

/-- What the files of a run hold. -/
def Parts.text (parts : Parts) : Artifact → Option String
  | .program => parts.program.map Storage.programText
  | .state => parts.state.map RunState.label
  | .log => parts.log

@[simp]
theorem Parts.zero_text (artifact : Artifact) : (0 : Parts).text artifact = none := by
  cases artifact <;> rfl

theorem Parts.onto_text (moved old : Parts) (artifact : Artifact) :
    (moved.onto old).text artifact = (moved.text artifact).or (old.text artifact) := by
  cases artifact with
  | program => exact Option.map_or
  | state => exact Option.map_or
  | log => rfl

def Ledger.on (ledger : Ledger) : Shelf → RunMap
  | .running => ledger.running
  | .history => ledger.history

/-- The run that a call is about has a name under which files can be held. -/
def LedgerCall.Proper (call : LedgerCall) : Prop := ∀ run ∈ call.run?, Storage.Storable run

namespace FileTree

/-- What a file holds. -/
def contentsAt (tree : FileTree) (place : Path) : Option Contents :=
  match tree.get? place with
  | some (.file _ contents) => some contents
  | _ => none

section Contents

variable {tree next : FileTree} {place directory : Path} {name : String} {id : Nat}
  {contents : Contents}

theorem contentsAt_of_file (h : tree.get? place = some (.file id contents)) :
    tree.contentsAt place = some contents := by
  rw [contentsAt, h]

theorem contentsAt_eq_none_iff (h : tree.get? place ≠ some .directory) :
    tree.contentsAt place = none ↔ tree.get? place = none := by
  unfold contentsAt
  split
  · rename_i hget
    simp [hget]
  · rename_i hnot
    cases hget : tree.get? place with
    | none => simp
    | some entry =>
      cases entry with
      | directory => exact absurd hget h
      | file id contents => exact absurd hget (hnot id contents)

theorem contentsAt_eq_some_iff : tree.contentsAt place = some contents ↔
    ∃ id, tree.get? place = some (.file id contents) := by
  unfold contentsAt
  split <;> simp_all

/-- A file that is not there cannot be read. -/
theorem readText_of_missing {path : String} (hpath : tree.resolve path = .ok place)
    (h : tree.get? place = none) : tree.readText path = .error .notFound := by
  simp only [readText, hpath, h, bind, Except.bind]
  rfl

theorem contentsAt_congr (h : next.get? place = tree.get? place) :
    next.contentsAt place = tree.contentsAt place := by
  rw [contentsAt, contentsAt, h]

/-- Nothing is lost when a file goes to a place where no directory is. -/
theorem contentsAt_or {source target : Path}
    (h : next.get? place = (tree.get? source).or (tree.get? target))
    (hsource : tree.get? source ≠ some .directory) :
    next.contentsAt place = (tree.contentsAt source).or (tree.contentsAt target) := by
  cases hget : tree.get? source with
  | none =>
    rw [hget, Option.none_or] at h
    rw [(contentsAt_eq_none_iff hsource).mpr hget, Option.none_or]
    simp only [contentsAt, h]
  | some entry =>
    cases entry with
    | directory => exact absurd hget hsource
    | file id contents =>
      rw [hget, Option.some_or] at h
      rw [contentsAt_of_file h, contentsAt_of_file hget, Option.some_or]

end Contents

end FileTree

namespace Storage

-- what these do to files is known by their laws, and nothing here looks into them
attribute [local irreducible] createRun updateState openLog moveToHistory sweep

section TwoMaps

variable {storage : Storage} {tree next : FileTree} {base : Path} {ledger : Ledger} {run : String}

/-- What the calls are on files. -/
def perform (storage : Storage) (tree : FileTree) :
    LedgerCall → FileTree × Except StorageFault LedgerAnswer
  | .create run program =>
    match storage.createRun tree run program with
    | .ok next => (next, .ok .done)
    | .error unfinished => (unfinished.left, .error unfinished.fault)
  | .store run state =>
    match storage.updateState tree run state with
    | .ok next => (next, .ok .done)
    | .error unfinished => (unfinished.left, .error unfinished.fault)
  | .openLog run =>
    match storage.openLog tree run with
    | .ok (next, _) => (next, .ok .done)
    | .error fault => (tree, .error fault)
  | .archive run =>
    let (next, result) := storage.moveToHistory tree run
    (next, result.map fun _ => .done)
  | .sweep =>
    let (next, result) := storage.sweep tree
    (next, result.map .names)
  | .listRunning => (tree, (storage.listRunning tree).map .names)
  | .listHistory =>
    (tree, (storage.listHistory tree).map fun entries =>
      .entries (entries.map fun (run, state) => (run, state.getD .unknown)))

/-- The files are those of the two maps, and no file has another name than these give it. -/
structure Shows (storage : Storage) (tree : FileTree) (base : Path) (ledger : Ledger) : Prop where
  tidy : Tidy storage tree base
  willing : tree.Willing
  files : ∀ shelf run artifact, tree.contentsAt (spot base shelf artifact run) =
    ((ledger.on shelf run).text artifact).map .text
  storable : ∀ shelf run, ledger.on shelf run ≠ 0 → Storable run

theorem Shows.get?_eq_none_iff (h : Shows storage tree base ledger) (shelf : Shelf)
    (artifact : Artifact) (run : String) : tree.get? (spot base shelf artifact run) = none ↔
      (ledger.on shelf run).text artifact = none := by
  rw [← FileTree.contentsAt_eq_none_iff (h.tidy.plain _ _ _), h.files, Option.map_eq_none_iff]

/-! ## One file of one run -/

theorem Shows.put (h : Shows storage tree base ledger) (hrun : Storable run) {artifact : Artifact}
    {id : Nat} {text : String} {parts : Parts}
    (hholds : FileTree.Holds tree (base ++ ["running"]) (artifact.fileName run) id (.text text)
      next)
    (hsound : next.Sound) (hhere : parts.text artifact = some text)
    (helse : ∀ other, other ≠ artifact → parts.text other = (ledger.running run).text other) :
    Shows storage next base (ledger.put run parts) := by
  have hsteady := hholds.steady hsound
  refine ⟨h.tidy.congr hsteady, h.willing.congr hsteady, ?_, ?_⟩
  · intro shelf name other
    by_cases hplace : spot base shelf other name = spot base .running artifact run
    · obtain ⟨rfl, rfl, rfl⟩ := spot_inj hplace
      have hfile : next.contentsAt (spot base .running other name) = some (.text text) :=
        FileTree.contentsAt_of_file hholds.here
      rw [hfile, Ledger.on, Ledger.put_running_apply, if_pos rfl, hhere]
      rfl
    · rw [FileTree.contentsAt_congr (hholds.elsewhere hplace), h.files]
      congr 1
      cases shelf with
      | history => rfl
      | running =>
        rw [Ledger.on, Ledger.on, Ledger.put_running_apply]
        split
        · rename_i hname
          subst hname
          rw [helse other]
          rintro rfl
          exact hplace rfl
        · rfl
  · intro shelf name hname
    cases shelf with
    | history => exact h.storable .history name hname
    | running =>
      rw [Ledger.on, Ledger.put_running_apply] at hname
      split at hname
      · rename_i hsame
        exact hsame ▸ hrun
      · exact h.storable .running name hname

/-- A call does the same to the files and to the two maps. -/
structure Follows (storage : Storage) (tree : FileTree) (base : Path) (ledger : Ledger)
    (call : LedgerCall) : Prop where
  shows : Shows storage (storage.perform tree call).1 base (ledger.perform call).1
  answer : (storage.perform tree call).2 = (ledger.perform call).2

theorem Shows.create (h : Shows storage tree base ledger) (hample : Ample storage)
    (hrun : Storable run) (program : Program) :
    Follows storage tree base ledger (.create run program) := by
  have hfits := hrun.fits hample .running .program
  have hfree := h.get?_eq_none_iff .running .program run
  by_cases hnone : (ledger.running run).program = none
  · have hget : tree.get? (spot base .running .program run) = none := by
      rw [hfree, Ledger.on, Parts.text, hnone]
      rfl
    obtain ⟨next, hnext, hholds, hsound⟩ :=
      h.tidy.laid.createRun_of_free hrun.slashless hfits hget (by simp [h.willing.roomy]) program
    have hperform : storage.perform tree (.create run program) = (next, .ok .done) := by
      simp only [perform, hnext]
    have hledger : ledger.perform (.create run program) =
        (ledger.put run { ledger.running run with program := some program }, .ok .done) := by
      simp only [Ledger.perform, if_pos hnone]
    refine ⟨?_, by rw [hperform, hledger]⟩
    rw [hperform, hledger]
    refine h.put hrun hholds hsound rfl fun other hother => ?_
    cases other with
    | program => exact absurd rfl hother
    | state => rfl
    | log => rfl
  · have htaken : tree.get? (spot base .running .program run) ≠ none := by
      rw [ne_eq, hfree, Ledger.on, Parts.text, Option.map_eq_none_iff]
      exact hnone
    obtain ⟨entry, hentry⟩ := Option.ne_none_iff_exists'.mp htaken
    have hexists := h.tidy.laid.createRun_of_taken hrun.slashless hfits hentry program
    have hperform : storage.perform tree (.create run program) =
        (tree, .error (.runExists run)) := by
      simp only [perform, hexists]
    have hledger : ledger.perform (.create run program) = (ledger, .error (.runExists run)) := by
      simp only [Ledger.perform, if_neg hnone]
    refine ⟨?_, by rw [hperform, hledger]⟩
    rw [hperform, hledger]
    exact h

theorem Shows.store (h : Shows storage tree base ledger) (hample : Ample storage)
    (hrun : Storable run) (state : RunState) :
    Follows storage tree base ledger (.store run state) := by
  obtain ⟨id, next, hnext, hholds, hsound⟩ := h.tidy.laid.updateState_of_willing hrun.slashless
    (hrun.fits hample .running .state) (h.tidy.plain _ _ _) h.willing state
  have hperform : storage.perform tree (.store run state) = (next, .ok .done) := by
    simp only [perform, hnext]
  refine ⟨?_, by rw [hperform, Ledger.perform]⟩
  rw [hperform]
  refine h.put hrun hholds hsound rfl fun other hother => ?_
  cases other with
  | program => rfl
  | state => exact absurd rfl hother
  | log => rfl

theorem Shows.openLog (h : Shows storage tree base ledger) (hample : Ample storage)
    (hrun : Storable run) : Follows storage tree base ledger (.openLog run) := by
  obtain ⟨id, next, hnext, hholds, hsound⟩ := h.tidy.laid.openLog_of_plain hrun.slashless
    (hrun.fits hample .running .log) (h.tidy.plain _ _ _) (h.willing.mayOpen _)
  have hperform : storage.perform tree (.openLog run) = (next, .ok .done) := by
    simp only [perform, hnext]
  refine ⟨?_, by rw [hperform, Ledger.perform]⟩
  rw [hperform]
  refine h.put hrun hholds hsound rfl fun other hother => ?_
  cases other with
  | program => rfl
  | state => rfl
  | log => exact absurd rfl hother

/-! ## Moves -/

theorem Shows.gone (h : Shows storage tree base ledger) (hrun : Storable run)
    (hgone : Gone tree next base run Artifact.all) (hsteady : FileTree.Steady tree next) :
    Shows storage next base (ledger.archive run) := by
  refine ⟨h.tidy.congr hsteady, h.willing.congr hsteady, ?_, ?_⟩
  · intro shelf name artifact
    have hmem := artifact.mem_all
    by_cases hname : name = run
    · subst hname
      cases shelf with
      | running =>
        rw [Ledger.on, Ledger.archive_running_apply, if_pos rfl, Parts.zero_text, Option.map_none]
        simp only [FileTree.contentsAt, hgone.running artifact hmem]
      | history =>
        rw [Ledger.on, Ledger.archive_history_apply, if_pos rfl, Parts.onto_text, Option.map_or,
          FileTree.contentsAt_or (hgone.history artifact hmem) (h.tidy.plain _ _ _)]
        rw [h.files, h.files]
        rfl
    · have hother : next.get? (spot base shelf artifact name) =
          tree.get? (spot base shelf artifact name) :=
        hgone.elsewhere _ fun _ _ _ => spot_ne_of_run hname _ _ _ _
      rw [FileTree.contentsAt_congr hother, h.files]
      cases shelf with
      | running => rw [Ledger.on, Ledger.on, Ledger.archive_running_apply, if_neg hname]
      | history => rw [Ledger.on, Ledger.on, Ledger.archive_history_apply, if_neg hname]
  · intro shelf name hname
    by_cases hsame : name = run
    · exact hsame ▸ hrun
    · cases shelf with
      | running =>
        rw [Ledger.on, Ledger.archive_running_apply, if_neg hsame] at hname
        exact h.storable .running name hname
      | history =>
        rw [Ledger.on, Ledger.archive_history_apply, if_neg hsame] at hname
        exact h.storable .history name hname

theorem Shows.archive (h : Shows storage tree base ledger) (hample : Ample storage)
    (hrun : Storable run) : Follows storage tree base ledger (.archive run) := by
  have hplain : ∀ artifact, tree.get? (spot base .running artifact run) ≠ some .directory :=
    fun artifact => h.tidy.plain _ _ _
  have hok := (h.tidy.moveToHistory_ok_iff hrun.slashless).mpr (hrun.fits hample)
  obtain ⟨hgone, _⟩ := h.tidy.laid.moveToHistory_of_ok hrun.slashless hplain hok
  obtain ⟨_, hsteady, _⟩ := h.tidy.laid.moveToHistory hrun.slashless hplain
  refine ⟨h.gone hrun hgone hsteady, ?_⟩
  simp only [perform, hok, Ledger.perform]
  rfl

/-! ## Listings -/

theorem runsIn_sorted {directory : String} {names : List String}
    (h : runsIn tree directory = .ok names) : names.Pairwise (· ≤ ·) := by
  cases hlist : tree.list directory with
  | error fault => simp [runsIn, hlist, stored, Except.mapError, bind, Except.bind] at h
  | ok children =>
    simp only [runsIn, hlist, stored, Except.mapError, bind, Except.bind, pure, Except.pure,
      Except.ok.injEq] at h
    subst h
    have htrans : ∀ a b c : String, decide (a ≤ b) = true → decide (b ≤ c) = true →
        decide (a ≤ c) = true := by
      intro a b c hab hbc
      exact decide_eq_true (le_trans (of_decide_eq_true hab) (of_decide_eq_true hbc))
    have htotal : ∀ a b : String, (decide (a ≤ b) || decide (b ≤ a)) = true := by
      intro a b
      rcases le_total a b with hle | hle
      · simp only [hle, decide_true, Bool.true_or]
      · simp only [hle, decide_true, Bool.or_true]
    exact (List.pairwise_mergeSort htrans htotal _).imp of_decide_eq_true

/-- What is listed of a shelf are the names that have a program there. -/
theorem Shows.names (h : Shows storage tree base ledger) (hample : Ample storage) (shelf : Shelf) :
    runsIn tree (storage.directory shelf .program) = .ok (ledger.on shelf).names := by
  obtain ⟨names, hnames, hlists⟩ :=
    h.tidy.laid.runsIn_eq (hample.badText_directory shelf .program)
  rw [hnames, RunMap.eq_names (runsIn_sorted hnames) hlists.nodup fun run => ?_]
  rw [hlists.mem_iff, Listed]
  constructor
  · rintro ⟨⟨_, id, contents, hget⟩, _⟩ hnone
    have hfile := h.files shelf run .program
    rw [FileTree.contentsAt_of_file hget, Parts.text, hnone] at hfile
    cases hfile
  · intro hprogram
    obtain ⟨program, hsome⟩ := Option.ne_none_iff_exists'.mp hprogram
    have hfile := h.files shelf run .program
    rw [Parts.text, hsome] at hfile
    obtain ⟨id, hget⟩ := FileTree.contentsAt_eq_some_iff.mp hfile
    have hkept := Parts.ne_zero_of_program hprogram
    exact ⟨⟨(h.storable shelf run hkept).nonempty, id, _, hget⟩,
      (h.storable shelf run hkept).fits hample shelf .program⟩

theorem Shows.storable_of_mem (h : Shows storage tree base ledger) (shelf : Shelf)
    (hmem : run ∈ (ledger.on shelf).names) : Storable run :=
  h.storable shelf run (Parts.ne_zero_of_program (((ledger.on shelf).mem_names_iff run).mp hmem))

/-- What is listed of a run in the history is the state that is kept of it. -/
theorem Shows.archivedState?_eq (h : Shows storage tree base ledger) (hample : Ample storage)
    (hrun : Storable run) : storage.archivedState? tree run = (ledger.history run).state := by
  have hfits := hrun.fits hample .history .state
  have hfile := h.files .history run .state
  cases hstate : (ledger.history run).state with
  | none =>
    have hget : tree.get? (spot base .history .state run) = none := by
      rw [h.get?_eq_none_iff, Ledger.on, Parts.text, hstate]
      rfl
    have hresolve := h.tidy.laid.resolve_of_fits hrun.slashless .history .state hfits
    have hread : tree.readText (storage.archiveFile .state run) = .error .notFound :=
      FileTree.readText_of_missing hresolve hget
    rw [Storage.archivedState?, hread]
  | some state =>
    rw [Ledger.on, Parts.text, hstate] at hfile
    obtain ⟨id, hget⟩ := FileTree.contentsAt_eq_some_iff.mp hfile
    exact h.tidy.laid.archivedState?_eq hrun.slashless hfits hget

theorem Shows.listRunning (h : Shows storage tree base ledger) (hample : Ample storage) :
    Follows storage tree base ledger .listRunning := by
  refine ⟨h, ?_⟩
  have hnames : storage.listRunning tree = .ok ledger.running.names := h.names hample .running
  simp only [perform, hnames, Ledger.perform]
  rfl

theorem Shows.listHistory (h : Shows storage tree base ledger) (hample : Ample storage) :
    Follows storage tree base ledger .listHistory := by
  refine ⟨h, ?_⟩
  have hnames : runsIn tree storage.historyDir = .ok ledger.history.names :=
    h.names hample .history
  have hentries : ledger.history.names.map (fun run => (run, (storage.archivedState? tree run))) =
      ledger.history.names.map fun run => (run, (ledger.history run).state) := by
    refine List.map_congr_left fun run hmem => ?_
    rw [h.archivedState?_eq hample (h.storable_of_mem .history hmem)]
  simp only [perform, Storage.listHistory, hnames, bind, Except.bind, pure, Except.pure, hentries,
    Except.map, List.map_map, Ledger.perform, Ledger.entries, Function.comp_def]

/-! ## Sweeps -/

theorem Shows.swept (h : Shows storage tree base ledger) (hsteady : FileTree.Steady tree next)
    (hswept : Swept tree next base ledger.running.names) :
    Shows storage next base ledger.sweep := by
  refine ⟨h.tidy.congr hsteady, h.willing.congr hsteady, ?_, ?_⟩
  · intro shelf run artifact
    have hmem := ledger.running.mem_names_iff run
    by_cases hnone : (ledger.running run).program = none
    · have hother : next.get? (spot base shelf artifact run) =
          tree.get? (spot base shelf artifact run) := by
        refine hswept.elsewhere _ fun other hother _ _ => spot_ne_of_run ?_ _ _ _ _
        rintro rfl
        exact hmem.mp hother hnone
      rw [FileTree.contentsAt_congr hother, h.files]
      cases shelf with
      | running => rw [Ledger.on, Ledger.on, Ledger.sweep_running_apply, if_pos hnone]
      | history => rw [Ledger.on, Ledger.on, Ledger.sweep_history_apply, if_pos hnone]
    · have hlisted := hmem.mpr hnone
      cases shelf with
      | running =>
        rw [Ledger.on, Ledger.sweep_running_apply, if_neg hnone, Parts.zero_text, Option.map_none]
        simp only [FileTree.contentsAt, hswept.running run hlisted artifact]
      | history =>
        rw [Ledger.on, Ledger.sweep_history_apply, if_neg hnone, Parts.onto_text, Option.map_or]
        cases artifact with
        | program =>
          rw [FileTree.contentsAt_or (hswept.program run hlisted) (h.tidy.plain _ _ _), h.files,
            h.files]
          rfl
        | state =>
          obtain ⟨id, hget⟩ := hswept.canceled hlisted (.of_willing h.willing base run)
          rw [FileTree.contentsAt_of_file hget]
          rfl
        | log =>
          rw [FileTree.contentsAt_or (hswept.log run hlisted) (h.tidy.plain _ _ _), h.files,
            h.files]
          rfl
  · intro shelf run hrun
    cases shelf with
    | running =>
      rw [Ledger.on, Ledger.sweep_running_apply] at hrun
      split at hrun
      · exact h.storable .running run hrun
      · exact absurd rfl hrun
    | history =>
      rw [Ledger.on, Ledger.sweep_history_apply] at hrun
      split at hrun
      · exact h.storable .history run hrun
      · rename_i hnone
        exact h.storable .running run (Parts.ne_zero_of_program hnone)

theorem Shows.sweep (h : Shows storage tree base ledger) (hample : Ample storage) :
    Follows storage tree base ledger .sweep := by
  have hnames : storage.listRunning tree = .ok ledger.running.names := h.names hample .running
  have hstorable : ∀ run ∈ ledger.running.names, Storable run :=
    fun run hmem => h.storable_of_mem .running hmem
  have hlists : Lists storage tree base .running ledger.running.names :=
    h.tidy.laid.lists_of_ok hnames
  obtain ⟨hsteady, hfits, hswept⟩ := h.tidy.laid.cancelAll hlists.nodup
    (fun run hmem => (hstorable run hmem).slashless) fun run _ => h.tidy.plainAt run
  have hcanceled := hfits.mpr fun run hmem => (hstorable run hmem).fits hample
  have hsweep : storage.sweep tree =
      ((storage.cancelAll tree ledger.running.names).1, .ok ledger.running.names) := by
    rw [sweep_of_ok hnames, hcanceled]
    rfl
  have hperform : storage.perform tree .sweep =
      ((storage.cancelAll tree ledger.running.names).1, .ok (.names ledger.running.names)) := by
    rw [perform, hsweep]
    rfl
  refine ⟨?_, by rw [hperform, Ledger.perform]⟩
  rw [hperform]
  exact h.swept hsteady (hswept hcanceled)

/-! ## Sequences of calls -/

theorem Shows.perform (h : Shows storage tree base ledger) (hample : Ample storage)
    {call : LedgerCall} (hcall : call.Proper) : Follows storage tree base ledger call := by
  cases call with
  | create run program => exact h.create hample (hcall run rfl) program
  | store run state => exact h.store hample (hcall run rfl) state
  | openLog run => exact h.openLog hample (hcall run rfl)
  | archive run => exact h.archive hample (hcall run rfl)
  | sweep => exact h.sweep hample
  | listRunning => exact h.listRunning hample
  | listHistory => exact h.listHistory hample

theorem Shows.answers (h : Shows storage tree base ledger) (hample : Ample storage)
    {calls : List LedgerCall} (hcalls : ∀ call ∈ calls, call.Proper) :
    LedgerCall.answers storage.perform tree calls = LedgerCall.answers Ledger.perform ledger calls ∧
      Shows storage (LedgerCall.after storage.perform tree calls) base
        (LedgerCall.after Ledger.perform ledger calls) := by
  induction calls generalizing tree ledger with
  | nil => exact ⟨rfl, h⟩
  | cons call calls ih =>
    obtain ⟨hshows, hanswer⟩ := h.perform hample (hcalls call (by simp))
    obtain ⟨hanswers, hafter⟩ := ih hshows fun other hmem => hcalls other (by simp [hmem])
    refine ⟨?_, hafter⟩
    rw [LedgerCall.answers, LedgerCall.answers, hanswer, hanswers]

/-- The first call touches no file of the run of the second and does not change what that answers,
and nothing tells later in which order the two were made. -/
structure Apart (storage : Storage) (tree : FileTree) (base : Path) (first second : LedgerCall) :
    Prop where
  files : ∀ run ∈ second.run?, ∀ shelf artifact,
    (storage.perform tree first).1.contentsAt (spot base shelf artifact run) =
      tree.contentsAt (spot base shelf artifact run)
  answer : (storage.perform (storage.perform tree first).1 second).2 =
    (storage.perform tree second).2
  later : ∀ calls, (∀ call ∈ calls, LedgerCall.Proper call) →
    LedgerCall.answers storage.perform
        (storage.perform (storage.perform tree first).1 second).1 calls =
      LedgerCall.answers storage.perform
        (storage.perform (storage.perform tree second).1 first).1 calls

theorem Shows.apart (h : Shows storage tree base ledger) (hample : Ample storage)
    {first second : LedgerCall} (hfirst : first.Proper) (hsecond : second.Proper) {other : String}
    (hrun : first.run? = some run) (hother : second.run? = some other) (hne : run ≠ other) :
    Apart storage tree base first second := by
  obtain ⟨honce, _⟩ := h.perform hample hfirst
  obtain ⟨honce', hanswer'⟩ := h.perform hample hsecond
  obtain ⟨htwice, hanswer⟩ := honce.perform hample hsecond
  obtain ⟨htwice', _⟩ := honce'.perform hample hfirst
  obtain ⟨_, hsame, hcomm⟩ := Ledger.perform_comm hrun hother hne ledger
  refine ⟨?_, ?_, ?_⟩
  · intro name hname shelf artifact
    obtain rfl : other = name := Option.some.inj (hother.symm.trans hname)
    obtain ⟨hrunning, hhistory⟩ := Ledger.perform_elsewhere hrun (Ne.symm hne) ledger
    rw [honce.files, h.files]
    cases shelf with
    | running => rw [Ledger.on, Ledger.on, hrunning]
    | history => rw [Ledger.on, Ledger.on, hhistory]
  · rw [hanswer, hsame, hanswer']
  · intro calls hcalls
    rw [(htwice.answers hample hcalls).1, (htwice'.answers hample hcalls).1, hcomm]

end TwoMaps

/-! ## From a bare directory -/

theorem Fresh.shows {storage : Storage} {tree : FileTree} {base : Path}
    (h : Fresh storage tree base) (hshort : storage.base.utf8ByteSize + 18 ≤ 4095) :
    ∃ fresh, storage.prepare tree = .ok fresh ∧ Shows storage fresh base .empty := by
  obtain ⟨fresh, hprepare, htidy, hwilling, hspot⟩ := h.prepare hshort
  refine ⟨fresh, hprepare, htidy, hwilling, ?_, ?_⟩
  · intro shelf run artifact
    have hempty : Ledger.empty.on shelf run = 0 := by cases shelf <;> rfl
    rw [hempty, Parts.zero_text, Option.map_none, FileTree.contentsAt, hspot]
  · intro shelf run hrun
    cases shelf <;> exact absurd rfl hrun

/-- A storage that is opened on a bare directory is a store of two maps: it answers every sequence
of calls as the maps do, its files hold what these keep, and calls about different runs are apart
from each other. The path of the base leaves room for those of the files. -/
theorem serves_as_two_maps {storage : Storage} {tree : FileTree} {base : Path}
    (h : Fresh storage tree base) (hshort : storage.base.utf8ByteSize ≤ 3825) :
    ∃ fresh, storage.prepare tree = .ok fresh ∧
      ∀ calls : List LedgerCall, (∀ call ∈ calls, call.Proper) →
        LedgerCall.answers storage.perform fresh calls =
          LedgerCall.answers Ledger.perform .empty calls ∧
        Shows storage (LedgerCall.after storage.perform fresh calls) base
          (LedgerCall.after Ledger.perform .empty calls) ∧
        ∀ first second run other, LedgerCall.Proper first → LedgerCall.Proper second →
          first.run? = some run → second.run? = some other → run ≠ other →
          Apart storage (LedgerCall.after storage.perform fresh calls) base first second := by
  have hample : Ample storage := ⟨h.nulless, hshort⟩
  obtain ⟨fresh, hprepare, hshows⟩ := h.shows (by omega)
  refine ⟨fresh, hprepare, fun calls hcalls => ?_⟩
  obtain ⟨hanswers, hafter⟩ := hshows.answers hample hcalls
  refine ⟨hanswers, hafter, ?_⟩
  intro first second run other hfirst hsecond hrun hother hne
  exact hafter.apart hample hfirst hsecond hrun hother hne

/-- In a tree with nothing in it, a path that stays at the root is a bare directory. -/
theorem fresh_of_root {storage : Storage} (hnul : '\x00' ∉ storage.base.toList)
    (hroot : FileTree.empty.walk [] (pathNames storage.base) = .ok []) :
    Fresh storage .empty [] := by
  refine ⟨by decide, ⟨rfl, rfl⟩, hnul, hroot, ?_⟩
  intro rest hrest
  simp [FileTree.get?, FileTree.empty, hrest]

/-- A run that is created twice and swept. -/
def sweptCalls : List LedgerCall :=
  [.create "oak" ⟨"oak", [], none⟩, .create "oak" ⟨"oak", [], none⟩, .openLog "oak", .sweep,
    .listRunning, .listHistory]

theorem swept_run_is_canceled :
    Fresh ⟨""⟩ .empty [] ∧ "".utf8ByteSize ≤ 3825 ∧ (∀ call ∈ sweptCalls, call.Proper) ∧
      ∃ fresh, prepare ⟨""⟩ .empty = .ok fresh ∧
        LedgerCall.answers (perform ⟨""⟩) fresh sweptCalls =
          [.ok .done, .error (.runExists "oak"), .ok .done, .ok (.names ["oak"]), .ok (.names []),
            .ok (.entries [("oak", .canceled)])] ∧
        Apart ⟨""⟩ (LedgerCall.after (perform ⟨""⟩) fresh sweptCalls) []
          (.create "oak" ⟨"oak", [], none⟩) (.archive "ash") := by
  have hoak : Storable "oak" := by decide
  have hash : Storable "ash" := by decide
  have hproper : ∀ call ∈ sweptCalls, call.Proper := by
    simp [sweptCalls, LedgerCall.Proper, LedgerCall.run?, hoak]
  have hfresh : Fresh ⟨""⟩ .empty [] := fresh_of_root (by decide) rfl
  have hshort : "".utf8ByteSize ≤ 3825 := by decide
  refine ⟨hfresh, hshort, hproper, ?_⟩
  obtain ⟨fresh, hprepare, hcalls⟩ := serves_as_two_maps hfresh hshort
  obtain ⟨hanswers, _, hapart⟩ := hcalls sweptCalls hproper
  refine ⟨fresh, hprepare, hanswers.trans (by decide +kernel), ?_⟩
  apply hapart _ _ "oak" "ash" _ _ rfl rfl (by decide)
  · simpa [LedgerCall.Proper, LedgerCall.run?] using hoak
  · simpa [LedgerCall.Proper, LedgerCall.run?] using hash

/-! ## A base without room -/

theorem Storable.nameFault_of_long {storage : Storage} {run : String} (hrun : Storable run)
    (hnul : '\x00' ∉ storage.base.toList)
    (hlong : 4095 < storage.base.utf8ByteSize + 12 + run.utf8ByteSize) :
    storage.nameFault .running .program run = some .nameTooLong := by
  have hdirectory : storage.base.utf8ByteSize + 7 ≤
      (storage.directory .running .program).utf8ByteSize :=
    le_size_joinPath storage.base proper_running.slashless
  have hfile := le_size_joinPath (storage.directory .running .program)
    (Artifact.slash_not_mem_fileName hrun.slashless .program)
  have hname : (Artifact.program.fileName run).utf8ByteSize = run.utf8ByteSize + 1 + 4 :=
    size_fileName .program run
  have htext : FileTree.badText (storage.file .running .program run) = some .nameTooLong := by
    refine badText_of_long (hrun.nul_not_mem_file hnul .running .program) ?_
    rw [file_eq]
    omega
  rw [nameFault, htext]

theorem Laid.createRun_of_long {storage : Storage} {tree : FileTree} {base : Path} {run : String}
    (h : Laid storage tree base) (hnul : '\x00' ∉ storage.base.toList) (hrun : Storable run)
    (hlong : 4095 < storage.base.utf8ByteSize + 12 + run.utf8ByteSize) (program : Program) :
    storage.createRun tree run program = .error ⟨tree, .file .nameTooLong⟩ := by
  have hcreate : tree.create (storage.runningFile .program run) = .error .nameTooLong :=
    FileTree.create_of_error (h.resolve_of_fault hrun.slashless .running .program
      (hrun.nameFault_of_long hnul hlong))
  rw [createRun, hcreate]

/-- A storage can open where the paths of its files are too long, and refuses a run then. -/
theorem Fresh.refuses_long {storage : Storage} {tree : FileTree} {base : Path} {run : String}
    (h : Fresh storage tree base) (hshort : storage.base.utf8ByteSize + 18 ≤ 4095)
    (hrun : Storable run) (hlong : 4095 < storage.base.utf8ByteSize + 12 + run.utf8ByteSize)
    (program : Program) :
    ∃ fresh, storage.prepare tree = .ok fresh ∧
      LedgerCall.answers storage.perform fresh [.create run program] =
        [.error (.file .nameTooLong)] := by
  obtain ⟨fresh, hprepare, htidy, -⟩ := h.prepare hshort
  have hcreate := htidy.laid.createRun_of_long h.nulless hrun hlong program
  refine ⟨fresh, hprepare, ?_⟩
  simp only [LedgerCall.answers, perform, hcreate]

/-- The directory where one is, with slashes behind it. -/
def slashed : Nat → String
  | 0 => "."
  | count + 1 => slashed count ++ "/"

theorem size_slashed (count : Nat) : (slashed count).utf8ByteSize = count + 1 := by
  induction count with
  | zero => decide
  | succ count ih =>
    have hone : "/".utf8ByteSize = 1 := by decide
    rw [slashed, String.utf8ByteSize_append, ih, hone]

theorem nul_not_mem_slashed (count : Nat) : '\x00' ∉ (slashed count).toList := by
  induction count with
  | zero => decide
  | succ count ih => simp [slashed, ih]

theorem walk_slashed (tree : FileTree) (count : Nat) :
    tree.walk [] (pathNames (slashed count)) = .ok [] := by
  induction count with
  | zero => rfl
  | succ count ih =>
    rw [slashed, pathNames_slash, FileTree.walk_append, ih]
    rfl

/-- A long way to say where one is. -/
def longBase : Storage := ⟨slashed 3840⟩

/-- A name with as many bytes as the name of a run may have. -/
def longName : String := String.ofList (List.replicate 250 'a')

theorem toList_longName : longName.toList = List.replicate 250 'a' := String.toList_ofList

theorem storable_longName : Storable longName := by
  have hchars : ∀ c ∈ longName.toList, c = 'a' := by
    rw [toList_longName]
    exact fun c => List.eq_of_mem_replicate
  refine ⟨by decide +kernel, fun hslash => ?_, fun hnul => ?_, by decide +kernel⟩
  · exact absurd (hchars _ hslash) (by decide)
  · exact absurd (hchars _ hnul) (by decide)

/-- Where the path of the base takes the room, the files refuse what the maps keep. -/
theorem long_base_refuses :
    Fresh longBase .empty [] ∧ (LedgerCall.create longName ⟨"p", [], none⟩).Proper ∧
      ∃ fresh, prepare longBase .empty = .ok fresh ∧
        LedgerCall.answers longBase.perform fresh [.create longName ⟨"p", [], none⟩] =
          [.error (.file .nameTooLong)] ∧
        LedgerCall.answers Ledger.perform .empty [.create longName ⟨"p", [], none⟩] =
          [.ok .done] := by
  have hname : Storable longName := storable_longName
  have hsize : longName.utf8ByteSize = 250 := by decide +kernel
  have hbase : longBase.base.utf8ByteSize = 3841 := size_slashed 3840
  have hnul : '\x00' ∉ longBase.base.toList := nul_not_mem_slashed 3840
  have hfresh : Fresh longBase .empty [] := fresh_of_root hnul (walk_slashed .empty 3840)
  have hproper : (LedgerCall.create longName ⟨"p", [], none⟩).Proper := by
    simpa [LedgerCall.Proper, LedgerCall.run?] using hname
  obtain ⟨fresh, hprepare, hanswers⟩ := hfresh.refuses_long (by rw [hbase]; decide) hname
    (by rw [hbase, hsize]; decide) ⟨"p", [], none⟩
  exact ⟨hfresh, hproper, fresh, hprepare, hanswers, rfl⟩

end Storage
end DryKiln
