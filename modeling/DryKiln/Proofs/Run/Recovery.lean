-- A sweep after a process has died. Wherever a run was broken off, the sweep brings it into the
-- history, unless it was broken off between the moves of its files: then its program file is no
-- longer where the sweep looks for runs, and what was not moved stays where it is.
import DryKiln.Proofs.Run.FileSteps

namespace DryKiln

-- the operations of the storage are known by their laws
attribute [local irreducible] Storage.archive Storage.sweep FileTree.create FileTree.openEmpty

/-! ## What a sweep does to one run -/

namespace Storage

/-- Nothing of the run is left with the runs that are going on, and the history tells once of it, in
a state in which a run can end. -/
structure Recovered (storage : Storage) (tree : FileTree) (base : Path) (name : String) : Prop where
  clear : ∀ artifact, tree.get? (spot base .running artifact name) = none
  told : ∃ state : RunState, state.isTerminal = true ∧ Tells storage tree name state

variable {storage : Storage} {tree : FileTree} {base : Path} {name : String} {runs : List String}

theorem Roomy.recovered_of_listed (h : Roomy storage tree base name)
    (hlisted : Listed tree base .running name) (hok : (storage.sweep tree).2 = .ok runs) :
    Recovered storage (storage.sweep tree).1 base name := by
  obtain ⟨hlists, hswept, htidy⟩ := h.tidy.sweep hok
  have hmem : name ∈ runs := (hlists.mem_iff name).mpr ⟨hlisted, h.fits .running .program⟩
  obtain ⟨hname, id, c, hget⟩ := hlisted
  have hprogram := hswept.program name hmem
  rw [hget, Option.some_or] at hprogram
  obtain ⟨_, hstate⟩ := hswept.canceled hmem (.of_willing h.willing base name)
  exact ⟨hswept.running name hmem, .canceled, rfl,
    htidy.laid.tells h.slashless hname (h.fits .history) hprogram hstate⟩

/-- A sweep leaves the files of a run alone that has no program file with the runs that are going
on. -/
theorem Tidy.get?_sweep (h : Tidy storage tree base) (hok : (storage.sweep tree).2 = .ok runs)
    (hgone : tree.get? (spot base .running .program name) = none) (shelf : Shelf)
    (artifact : Artifact) : (storage.sweep tree).1.get? (spot base shelf artifact name) =
      tree.get? (spot base shelf artifact name) := by
  obtain ⟨hlists, hswept, -⟩ := h.sweep hok
  have hmem : name ∉ runs := by
    rw [hlists.mem_iff]
    rintro ⟨⟨-, id, c, hget⟩, -⟩
    simp [hgone] at hget
  refine hswept.elsewhere _ fun run hrun shelf' artifact' => spot_ne_of_run ?_ _ _ _ _
  rintro rfl
  exact hmem hrun

theorem Tidy.not_recovered_of_left (h : Tidy storage tree base)
    (hok : (storage.sweep tree).2 = .ok runs)
    (hgone : tree.get? (spot base .running .program name) = none) (artifact : Artifact)
    (hleft : tree.get? (spot base .running artifact name) ≠ none) :
    ¬ Recovered storage (storage.sweep tree).1 base name := by
  intro hrecovered
  have hclear := hrecovered.clear artifact
  rw [h.get?_sweep hok hgone] at hclear
  exact hleft hclear

theorem OnShelf.recovered {files : FileTree × OpenFile} {state : RunState}
    (h : OnShelf storage base .history name files state)
    (hroomy : Roomy storage files.1 base name) (hname : name ≠ "")
    (hstate : state.isTerminal = true) (hok : (storage.sweep files.1).2 = .ok runs) :
    Recovered storage (storage.sweep files.1).1 base name := by
  have hclear := h.clear rfl
  have hsame := hroomy.tidy.get?_sweep hok (hclear .program)
  obtain ⟨_, _, htidy⟩ := hroomy.tidy.sweep hok
  obtain ⟨id, c, hprogram⟩ := h.program
  obtain ⟨id', hlabel⟩ := h.state
  refine ⟨fun artifact => (hsame .running artifact).trans (hclear artifact), state, hstate, ?_⟩
  exact htidy.laid.tells hroomy.slashless hname (hroomy.fits .history)
    ((hsame .history .program).trans hprogram) ((hsame .history .state).trans hlabel)

end Storage

/-! ## How far a run has got -/

namespace FileStep

theorem isMove_ofLaunch (program : Program) :
    ∀ operation ∈ ofLaunch program, operation.isMove = false := by
  simp [ofLaunch, isMove]

theorem isMove_of_effects {effects : List RunEffect} (h : .archive ∉ callsIn effects) :
    ∀ operation ∈ effects.flatMap ofEffect, operation.isMove = false := by
  intro operation hmem
  obtain ⟨effect, heffect, hop⟩ := List.mem_flatMap.mp hmem
  cases effect with
  | archive => exact absurd (List.mem_filter.mpr ⟨heffect, rfl⟩) h
  | store state =>
    rcases List.mem_cons.mp hop with rfl | hop
    · rfl
    · rw [List.mem_singleton.mp hop]
      rfl
  | write text =>
    rw [List.mem_singleton.mp hop]
    rfl
  | _ => simp [ofEffect] at hop

/-- A run without a call of the storage that moves its files has no moves in its row. -/
theorem isMove_ofRun {program : Program} {effects : List RunEffect}
    (h : .archive ∉ callsIn effects) :
    ∀ operation ∈ ofRun program effects, operation.isMove = false :=
  List.forall_mem_append.mpr ⟨isMove_ofLaunch program, isMove_of_effects h⟩

theorem append_of_callsIn {effects : List RunEffect} (h : callsIn effects = []) :
    ∀ operation ∈ effects.flatMap ofEffect, ∃ text, operation = append text := by
  intro operation hmem
  obtain ⟨effect, heffect, hop⟩ := List.mem_flatMap.mp hmem
  have hquiet := List.filter_eq_nil_iff.mp h effect heffect
  cases effect with
  | write text => exact ⟨text, List.mem_singleton.mp hop⟩
  | archive => exact absurd rfl hquiet
  | store state => exact absurd rfl hquiet
  | _ => simp [ofEffect] at hop

/-- A row without moves counts none, as far as one goes. -/
theorem countP_take_eq_zero {row : List FileStep} (h : ∀ operation ∈ row, operation.isMove = false)
    (n : Nat) : (row.take n).countP isMove = 0 :=
  List.countP_eq_zero.mpr fun operation hmem => by simp [h operation (List.mem_of_mem_take hmem)]

theorem countP_take_moves_append {back : List FileStep}
    (hback : ∀ operation ∈ back, ∃ text, operation = append text) (k : Nat) :
    ((moves ++ back).take k).countP isMove = min k 3 := by
  have hquiet : ∀ operation ∈ back, operation.isMove = false := by
    intro operation hmem
    obtain ⟨text, rfl⟩ := hback operation hmem
    rfl
  have hmoves : (moves.take k).countP isMove = (moves.take k).length := by
    refine List.countP_eq_length.mpr fun operation hmem => ?_
    obtain ⟨artifact, -, rfl⟩ := List.mem_map.mp (List.mem_of_mem_take hmem)
    rfl
  rw [List.take_append, List.countP_append, countP_take_eq_zero hquiet, hmoves, List.length_take]
  rfl

end FileStep

namespace Hands

variable {storage : Storage} {base : Path} {name : String} {hands : Hands}

theorem steps_moves (artifacts : List Artifact) (fault : Option FileFault) :
    (hands.steps storage name (artifacts.map .move)).tree =
      (storage.archiveEach name (hands.tree, fault) artifacts).1 := by
  induction artifacts generalizing hands fault with
  | nil => rfl
  | cons artifact rest ih => exact ih _

/-- What is written to the log of a run changes nothing else. -/
theorem onShelf_appends {shelf : Shelf} {state : RunState} {files : FileTree × OpenFile}
    (h : Storage.OnShelf storage base shelf name files state) {row : List FileStep}
    (happends : ∀ operation ∈ row, ∃ text, operation = .append text) :
    ∃ files', (holding files).steps storage name row = holding files' ∧
      Storage.OnShelf storage base shelf name files' state := by
  induction row generalizing files with
  | nil => exact ⟨files, rfl, h⟩
  | cons operation rest ih =>
    rw [List.forall_mem_cons] at happends
    obtain ⟨⟨text, rfl⟩, hrest⟩ := happends
    exact ih (h.write text) hrest

/-- After the first of its operations a run has its program file, as long as nothing is moved. -/
theorem listed_of_started {tree : FileTree} {program : Program} {effects : List RunEffect}
    (h : Storage.Roomy storage tree base name) (hname : name ≠ "")
    (hfree : tree.get? (spot base .running .program name) = none) {n : Nat}
    (hmoves : ((FileStep.ofRun program effects).take (n + 1)).countP FileStep.isMove = 0) :
    Storage.Listed
      ((⟨tree, none, none⟩ : Hands).steps storage name
        ((FileStep.ofRun program effects).take (n + 1))).tree base .running name := by
  obtain ⟨rest, hrow⟩ : ∃ rest, FileStep.ofRun program effects = .createProgram :: rest :=
    ⟨_, rfl⟩
  obtain ⟨created, file, hcreate, hholds, hs⟩ := h.create hfree
  have hfirst : (⟨tree, none, none⟩ : Hands).step storage name .createProgram =
      ⟨created, some file, none⟩ := by
    simp only [step, hcreate]
  rw [hrow, List.take_succ_cons] at hmoves ⊢
  have hquiet : ∀ operation ∈ rest.take n, operation.isMove = false := by
    have hzero := List.countP_eq_zero.mp hmoves
    exact fun operation hmem => by simpa using hzero operation (List.mem_cons_of_mem _ hmem)
  have hlisted : Storage.Listed created base .running name := ⟨hname, _, _, hholds.here⟩
  have hsteps : Storage.Listed ((⟨created, some file, none⟩ : Hands).steps storage name
      (rest.take n)).tree base .running name :=
    listed_steps hlisted (h.congr (hholds.steady hs)) hquiet
  rwa [← hfirst] at hsteps

/-! ## A run that is being moved -/

variable {files : FileTree × OpenFile} {state : RunState} {runs : List String}

theorem gone_of_moves (h : Storage.Roomy storage hands.tree base name) (n : Nat) :
    Storage.Gone hands.tree (hands.steps storage name (FileStep.moves.take n)).tree base
      name (Artifact.all.take n) := by
  rw [FileStep.moves, ← List.map_take, steps_moves _ none]
  obtain ⟨hgone, -, -⟩ := h.tidy.laid.archiveEach h.slashless (Artifact.all.take n)
    (List.Nodup.sublist (List.take_sublist _ _) (by decide))
    (fun artifact _ => h.tidy.plain _ _ _) none
  rwa [List.filter_eq_self.mpr fun artifact _ => ?_] at hgone
  rw [h.tidy.movable_eq]
  exact (storage.fits_iff name).mp h.fits artifact

/-- With one or two of its files moved, a run is not found by a sweep, and its log stays. -/
theorem not_recovered_of_some (hands : Hands) (h : Storage.Roomy storage hands.tree base name)
    (hlog : hands.tree.get? (spot base .running .log name) ≠ none) {n : Nat} (hsome : 0 < n)
    (hnot : n < 3) :
    let moved := (hands.steps storage name (FileStep.moves.take n)).tree
    (storage.sweep moved).2 = .ok runs →
      ¬ Storage.Recovered storage (storage.sweep moved).1 base name := by
  intro moved hok
  have hgone := gone_of_moves h n
  obtain ⟨hprogram, hkept⟩ : Artifact.program ∈ Artifact.all.take n ∧
      Artifact.log ∉ Artifact.all.take n := by
    obtain rfl | rfl : n = 1 ∨ n = 2 := by omega
    · decide
    · decide
  have hleft : moved.get? (spot base .running .log name) =
      hands.tree.get? (spot base .running .log name) :=
    hgone.elsewhere _ fun artifact hmem shelf => spot_ne_of_artifact (by
      rintro rfl
      exact hkept hmem) _ _ _ _
  refine (roomy_steps h _).tidy.not_recovered_of_left hok (hgone.running _ hprogram) .log ?_
  rwa [hleft]

/-- A run that has ended is recovered once none of its files or all of them have been moved. -/
theorem recovered_iff_of_moving (h : Storage.OnShelf storage base .running name files state)
    (hroomy : Storage.Roomy storage files.1 base name) (hname : name ≠ "")
    (hstate : state.isTerminal = true) {back : List FileStep}
    (hback : ∀ operation ∈ back, ∃ text, operation = .append text) {k : Nat} (hk : 0 < k) :
    let died := ((holding files).steps storage name ((FileStep.moves ++ back).take k)).tree
    (storage.sweep died).2 = .ok runs →
      (Storage.Recovered storage (storage.sweep died).1 base name ↔ 3 ≤ k) := by
  intro died hok
  have hlength : FileStep.moves.length = 3 := rfl
  by_cases hall : 3 ≤ k
  · have hsplit : (FileStep.moves ++ back).take k =
        FileStep.moves ++ back.take (k - 3) := by
      rw [List.take_append, hlength, List.take_of_length_le (by omega)]
    obtain ⟨hdone, -⟩ := h.archived hroomy.slashless
      ((hroomy.tidy.moveToHistory_ok_iff hroomy.slashless).mpr hroomy.fits)
    obtain ⟨files', hsteps, hdone⟩ := onShelf_appends hdone
      fun operation hmem => hback operation (List.mem_of_mem_take hmem)
    have hend : (holding files).steps storage name ((FileStep.moves ++ back).take k) =
        holding files' := by
      rw [hsplit, steps_append]
      exact hsteps
    have hleft : died = files'.1 := congrArg Hands.tree hend
    have hroomyEnd : Storage.Roomy storage died base name := roomy_steps hroomy _
    rw [hleft] at hok hroomyEnd ⊢
    simp only [hall, iff_true]
    exact hdone.recovered hroomyEnd hname hstate hok
  · have hsplit : (FileStep.moves ++ back).take k = FileStep.moves.take k :=
      List.take_append_of_le_length (by omega)
    obtain ⟨c, hget⟩ := h.log
    have hlog : (holding files).tree.get? (spot base .running .log name) ≠ none := by
      simp [holding, hget]
    have hleft : died = ((holding files).steps storage name (FileStep.moves.take k)).tree := by
      simp only [died, hsplit]
    rw [hleft] at hok ⊢
    simp only [hall, iff_false]
    exact not_recovered_of_some (holding files) hroomy hlog hk (Nat.lt_of_not_le hall) hok

end Hands

/-! ## The law -/

namespace Run

variable {storage : Storage} {tree : FileTree} {base : Path} {program : Program} {now : Int}

theorem slash_not_mem_of_runName (h : '/' ∉ (runName program.name now).toList) :
    '/' ∉ program.name.toList := by
  rw [runName_toList] at h
  exact fun hmem => h (List.mem_append_left _ hmem)

/-- A run has ended when its files are moved, and after that only its log is written. -/
theorem moved_when_ended {run : Run} (hphase : run.phase = .prepared)
    (events : List (RunEvent × Int × SinkAnswers)) :
    .archive ∉ callsIn (run.hear events).2 ∨
    ∃ front back last, (run.hear events).2 = front ++ .archive :: back ∧
      callsIn front = [.store .running, .store last] ∧ last.isTerminal = true ∧
      callsIn back = [] := by
  obtain ⟨hrecorded, -⟩ := recorded_hear hphase events
  unfold Recorded at hrecorded
  split at hrecorded
  · exact .inl (by simp [hrecorded.1])
  · exact .inl (by simp [hrecorded.1])
  · exact .inl (by simp [hrecorded.1])
  · rename_i state _
    obtain ⟨hcalls, -, hends, -⟩ := hrecorded
    obtain ⟨front, back, heq, hfront, hback⟩ :=
      Storage.split_at_archive [.store .running, .store state] hcalls
    exact .inr ⟨front, back, state, heq, hfront, hends.isTerminal, hback⟩

/-- Once a file has been moved, the run has done all that it does before its moves. -/
theorem steps_take_of_moved {settings : RunSettings} {run : Run} {files : FileTree × OpenFile}
    (hlaunch : launch storage tree program settings now = (files.1, .ok (run, files.2)))
    {front back : List RunEffect} (hfront : .archive ∉ callsIn front) (hback : callsIn back = [])
    {n : Nat} (hmoved : ((FileStep.ofRun program (front ++ .archive :: back)).take n).countP
      FileStep.isMove ≠ 0) :
    ∃ k, 0 < k ∧
      ((FileStep.ofRun program (front ++ .archive :: back)).take n).countP FileStep.isMove =
        min k 3 ∧
      (⟨tree, none, none⟩ : Hands).steps storage run.name
          ((FileStep.ofRun program (front ++ .archive :: back)).take n) =
        (Hands.holding (front.foldl (store storage run.name) files)).steps storage run.name
          ((FileStep.moves ++ back.flatMap FileStep.ofEffect).take k) := by
  have hrow : FileStep.ofRun program (front ++ .archive :: back) = FileStep.ofRun program front ++
      (FileStep.moves ++ back.flatMap FileStep.ofEffect) := by
    simp only [FileStep.ofRun, List.flatMap_append, List.flatMap_cons, List.append_assoc,
      FileStep.ofEffect]
  rw [hrow, List.take_append] at hmoved ⊢
  rw [List.countP_append, FileStep.countP_take_eq_zero (FileStep.isMove_ofRun hfront), Nat.zero_add,
    FileStep.countP_take_moves_append (FileStep.append_of_callsIn hback)] at hmoved ⊢
  refine ⟨n - (FileStep.ofRun program front).length, by omega, rfl, ?_⟩
  rw [List.take_of_length_le (by omega), Hands.steps_append, Hands.steps_ofRun hlaunch]

/-- A process may die after any number of the file operations of a run, from the first on. The
operations done one after the other are what the run does to its files; and a sweep that is done
without fault later on recovers the run, unless some of its files had been moved to the history
and some had not. -/
theorem recovered_unless_died_between_moves
    (h : Storage.Roomy storage tree base (runName program.name now))
    (hfree : tree.get? (spot base .running .program (runName program.name now)) = none)
    (settings : RunSettings) (events : List (RunEvent × Int × SinkAnswers)) :
    let name := runName program.name now
    let run := prepare name program settings now
    let row := FileStep.ofRun program (run.hear events).2
    (∃ files, launch storage tree program settings now = (files.1, .ok (run, files.2)) ∧
      (⟨tree, none, none⟩ : Hands).steps storage name row =
        .holding ((run.hear events).2.foldl (store storage name) files)) ∧
    ∀ n runs, 0 < n →
      let died := ((⟨tree, none, none⟩ : Hands).steps storage name (row.take n)).tree
      let moves := (row.take n).countP FileStep.isMove
      (storage.sweep died).2 = .ok runs →
        (Storage.Recovered storage (storage.sweep died).1 base name ↔
          ¬ (0 < moves ∧ moves < 3)) := by
  intro name run row
  obtain ⟨run', files, hlaunch⟩ :=
    launch_of_tidy h.tidy h.willing (slash_not_mem_of_runName h.slashless) h.fits hfree settings
  have hlaunched := launched_of_ok hlaunch
  obtain rfl : run' = run := hlaunched.prepared
  refine ⟨⟨files, hlaunch, Hands.steps_ofRun hlaunch _⟩, ?_⟩
  intro n runs hn died moves hok
  have hname : name ≠ "" := runName_ne_empty program.name now
  by_cases hzero : moves = 0
  · obtain ⟨n, rfl⟩ : ∃ k, n = k + 1 := ⟨n - 1, by omega⟩
    have hlisted := Hands.listed_of_started h hname hfree hzero
    have hroomy : Storage.Roomy storage died base name := Hands.roomy_steps h _
    refine iff_of_true (hroomy.recovered_of_listed hlisted hok) fun hsome => ?_
    exact absurd hsome.1 (by omega)
  obtain harchive | ⟨front, back, last, heffects, hfront, hlast, hback⟩ :=
    moved_when_ended (show run.phase = .prepared from rfl) events
  · exact absurd (FileStep.countP_take_eq_zero (FileStep.isMove_ofRun harchive) n) hzero
  simp only [moves, died, row, heffects] at hzero hok ⊢
  obtain ⟨k, hk, hcount, hsteps⟩ :=
    steps_take_of_moved hlaunch (by simp [hfront]) hback hzero
  obtain ⟨hshelf, hsteady⟩ := hlaunched.onShelf h.tidy.laid h.slashless
  have hroomy := h.congr hsteady
  have hready := hshelf.ready h.slashless hfront
    (faultless_of_tidy h.slashless h.fits front hroomy.tidy hroomy.willing)
  have hroomyReady :
      Storage.Roomy storage (front.foldl (store storage name) files).1 base name := by
    have hsteps := Hands.roomy_steps (show Storage.Roomy storage
      (⟨tree, none, none⟩ : Hands).tree base run.name from h) (FileStep.ofRun program front)
    rwa [Hands.steps_ofRun hlaunch] at hsteps
  have hiff := Hands.recovered_iff_of_moving hready hroomyReady hname hlast
    (FileStep.append_of_callsIn hback) hk (hsteps ▸ hok)
  rw [← hsteps] at hiff
  rw [hcount]
  exact hiff.trans (by omega)

/-- A rest that is stopped early is recovered if the process dies just before the first of its
moves, and lost if it dies just after it. -/
theorem stopped_rest_is_recovered_until_its_moves :
    let name := runName Controller.oneHeatedRest.name 1700000000
    let row := FileStep.ofRun Controller.oneHeatedRest
      ((prepare name Controller.oneHeatedRest ⟨1000, 60, 60⟩ 1700000000).hear stoppedRest).2
    let died (n : Nat) :=
      ((⟨Storage.bareTree, none, none⟩ : Hands).steps ⟨""⟩ name (row.take n)).tree
    Storage.Recovered ⟨""⟩ (Storage.sweep ⟨""⟩ (died 10)).1 [] name ∧
      ¬ Storage.Recovered ⟨""⟩ (Storage.sweep ⟨""⟩ (died 11)).1 [] name := by
  intro name row died
  have hroomy : Storage.Roomy ⟨""⟩ Storage.bareTree [] name :=
    ⟨Storage.laid_bareTree.tidy (by decide), ⟨rfl, rfl⟩, by decide, Storage.fits_oak⟩
  obtain ⟨-, hlaw⟩ := recovered_unless_died_between_moves hroomy (by decide) ⟨1000, 60, 60⟩
    stoppedRest
  have hbefore := hlaw 10 [name] (by decide) (by decide +kernel)
  have hafter := hlaw 11 [] (by decide) (by decide +kernel)
  exact ⟨hbefore.mpr (by decide +kernel),
    fun hrecovered => hafter.mp hrecovered (by decide +kernel)⟩

/-- With its program moved, a run is not found by the sweep: its state and its log stay where they
are, and the history tells no state of it. -/
theorem stopped_rest_is_lost_between_its_moves :
    let name := "oak@2023-11-14T22:13:20Z"
    let row := FileStep.ofRun Controller.oneHeatedRest
      ((prepare name Controller.oneHeatedRest ⟨1000, 60, 60⟩ 1700000000).hear stoppedRest).2
    let died := ((⟨Storage.bareTree, none, none⟩ : Hands).steps ⟨""⟩ name (row.take 11)).tree
    let swept := (Storage.sweep ⟨""⟩ died).1
    (Storage.sweep ⟨""⟩ died).2 = .ok [] ∧
      (swept.get? (spot [] .running .state name)).isSome = true ∧
      (swept.get? (spot [] .running .log name)).isSome = true ∧
      Storage.listHistory ⟨""⟩ swept = .ok [(name, none)] ∧
      ¬ Storage.Recovered ⟨""⟩ swept [] name := by
  intro name row died swept
  have hfound : (Storage.sweep ⟨""⟩ died).2 = .ok [] ∧
      (swept.get? (spot [] .running .state name)).isSome = true ∧
      (swept.get? (spot [] .running .log name)).isSome = true ∧
      Storage.listHistory ⟨""⟩ swept = .ok [(name, none)] := by decide +kernel
  obtain ⟨hswept, hstate, hlog, hlisted⟩ := hfound
  refine ⟨hswept, hstate, hlog, hlisted, fun hrecovered => ?_⟩
  rw [hrecovered.clear .state] at hstate
  cases hstate

end Run
end DryKiln
