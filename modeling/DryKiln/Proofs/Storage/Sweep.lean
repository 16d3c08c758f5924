-- How runs go into the history. Moving a run takes each of its files that the file system can hold
-- from one shelf to the other; a sweep cancels and moves every run that has its program file with
-- the runs that are going on, and changes nothing else.
import DryKiln.Proofs.Storage.Ways

namespace DryKiln
namespace Storage

-- what these do to one file is known by their laws, and nothing here looks into them
attribute [local irreducible] updateState archive

/-! ## Files that have gone into the history -/

section Moves

variable {storage : Storage} {tree middle next : FileTree} {base : Path} {run : String}

/-- What is left when these files of a run, as far as they were there, have gone into the
history. -/
structure Gone (tree next : FileTree) (base : Path) (run : String) (artifacts : List Artifact) :
    Prop where
  running : ∀ artifact ∈ artifacts, next.get? (spot base .running artifact run) = none
  history : ∀ artifact ∈ artifacts, next.get? (spot base .history artifact run) =
    (tree.get? (spot base .running artifact run)).or (tree.get? (spot base .history artifact run))
  elsewhere : ∀ p, (∀ artifact ∈ artifacts, ∀ shelf, p ≠ spot base shelf artifact run) →
    next.get? p = tree.get? p

theorem Gone.refl (tree : FileTree) (base : Path) (run : String) : Gone tree tree base run [] :=
  ⟨by simp, by simp, fun _ _ => rfl⟩

theorem Gone.trans {first second : List Artifact} (h₁ : Gone tree middle base run first)
    (h₂ : Gone middle next base run second) (disjoint : ∀ artifact ∈ first, artifact ∉ second) :
    Gone tree next base run (first ++ second) := by
  -- a file of one part is not touched when the files of the other part go
  have hkept : ∀ artifact ∈ first, ∀ shelf,
      next.get? (spot base shelf artifact run) = middle.get? (spot base shelf artifact run) := by
    intro artifact hfirst shelf
    refine h₂.elsewhere _ fun artifact' hsecond shelf' => spot_ne_of_artifact ?_ _ _ _ _
    rintro rfl
    exact disjoint _ hfirst hsecond
  have hbefore : ∀ artifact ∈ second, ∀ shelf,
      middle.get? (spot base shelf artifact run) = tree.get? (spot base shelf artifact run) := by
    intro artifact hsecond shelf
    refine h₁.elsewhere _ fun artifact' hfirst shelf' => spot_ne_of_artifact ?_ _ _ _ _
    rintro rfl
    exact disjoint _ hfirst hsecond
  refine ⟨?_, ?_, ?_⟩
  · intro artifact h
    rcases List.mem_append.mp h with h | h
    · rw [hkept artifact h, h₁.running artifact h]
    · exact h₂.running artifact h
  · intro artifact h
    rcases List.mem_append.mp h with h | h
    · rw [hkept artifact h, h₁.history artifact h]
    · rw [h₂.history artifact h, hbefore artifact h, hbefore artifact h]
  · intro p h
    rw [h₂.elsewhere p fun artifact hmem => h artifact (List.mem_append_right _ hmem),
      h₁.elsewhere p fun artifact hmem => h artifact (List.mem_append_left _ hmem)]

/-- A file of a run can go into the history, if it is there: no directory is in its place. -/
def movable (storage : Storage) (tree : FileTree) (base : Path) (run : String)
    (artifact : Artifact) : Bool :=
  storage.takes run artifact &&
    (tree.get? (spot base .running artifact run) == none ||
      tree.get? (spot base .history artifact run) != some .directory)

theorem fits_iff (storage : Storage) (run : String) :
    Fits storage run ↔ ∀ artifact, storage.takes run artifact = true := by
  simp only [takes_iff]
  exact forall_comm

theorem takes_of_movable {artifact : Artifact}
    (h : movable storage tree base run artifact = true) : storage.takes run artifact = true :=
  (Bool.and_eq_true_iff.mp h).1

theorem movable_congr {artifact : Artifact}
    (h : ∀ shelf, next.get? (spot base shelf artifact run) =
      tree.get? (spot base shelf artifact run)) :
    movable storage next base run artifact = movable storage tree base run artifact := by
  simp only [movable, h]

theorem gone_of_missing {artifact : Artifact}
    (absent : tree.get? (spot base .running artifact run) = none) :
    Gone tree tree base run [artifact] := by
  refine ⟨?_, ?_, fun _ _ => rfl⟩
  · simpa using absent
  · simp [absent]

theorem gone_of_moved (hs : tree.Sound) {artifact : Artifact} {id : Nat} {contents : Contents}
    (source : tree.get? (spot base .running artifact run) = some (.file id contents))
    (target : tree.get? (spot base .history artifact run) ≠ some .directory) :
    Gone tree (tree.moveFile (spot base .running artifact run) (spot base .history artifact run))
      base run [artifact] := by
  have hne := running_ne_history base artifact artifact run run
  have hget := FileTree.get?_moveFile hs source target (not_below_spot base artifact run)
  refine ⟨?_, ?_, ?_⟩
  · simp [hget, hne]
  · simp [hget, source]
  · intro p hp
    have hrunning := hp artifact (by simp) .running
    have hhistory := hp artifact (by simp) .history
    rw [hget, if_neg hhistory, if_neg hrunning]

/-- The move of one file: what cannot be moved stays, and that is a fault. -/
theorem Laid.archive (h : Laid storage tree base) (hrun : '/' ∉ run.toList) (artifact : Artifact)
    (hplain : tree.get? (spot base .running artifact run) ≠ some .directory) :
    Gone tree (storage.archive tree run artifact).1 base run
        ([artifact].filter (movable storage tree base run)) ∧
      FileTree.Steady tree (storage.archive tree run artifact).1 ∧
      ((storage.archive tree run artifact).2 = none ↔
        movable storage tree base run artifact = true) := by
  have houtcome := outcome h.sound h.based hrun artifact
  cases hresult : storage.archive tree run artifact with
  | mk next fault =>
    rw [hresult] at houtcome
    cases houtcome with
    | moved there clear =>
      obtain ⟨id, contents, hsource⟩ := FileTree.file_of_plain there hplain
      have htarget := (FileTree.yields_iff_of_plain hplain).mp clear.yields
      have hmovable : movable storage tree base run artifact = true := by
        simp [movable, clear.takes, htarget]
      rw [List.filter_cons_of_pos hmovable]
      exact ⟨gone_of_moved h.sound hsource htarget,
        h.sound.steady_moveFile hsource htarget (not_below_spot base artifact run)
          (h.there .history artifact) (h.sound.named _ _ _ hsource), by simp [hmovable]⟩
    | missing absent accepted =>
      have htakes := accepted.resolve_right fun lacks => h.not_lacks .running artifact lacks
      have hmovable : movable storage tree base run artifact = true := by
        simp [movable, htakes, absent]
      rw [List.filter_cons_of_pos hmovable]
      exact ⟨gone_of_missing absent, h.sound.steady, by simp [hmovable]⟩
    | left lacks => exact absurd lacks (h.not_lacks .history artifact)
    | held fault cause =>
      have hmovable : movable storage tree base run artifact = false := by
        rcases cause with hrefused | ⟨shelf, hbarred⟩ | ⟨hthere, hstubborn⟩
        · simp [movable, hrefused]
        · exact absurd hbarred (h.not_barred shelf artifact)
        · rw [FileTree.yields_iff_of_plain hplain, Decidable.not_not] at hstubborn
          simp [movable, hstubborn, Option.isSome_iff_ne_none, hthere]
      rw [List.filter_cons_of_neg (by simp [hmovable])]
      exact ⟨Gone.refl tree base run, h.sound.steady, by simp [hmovable]⟩

/-! ## All files of a run -/

/-- Moves files of a run into the history, one after the other, and keeps the last fault. -/
def archiveEach (storage : Storage) (run : String) (start : FileTree × Option FileFault)
    (artifacts : List Artifact) : FileTree × Option FileFault :=
  artifacts.foldl (fun (tree, fault) artifact =>
    let (moved, next) := storage.archive tree run artifact
    (moved, next.or fault)) start

theorem Laid.archiveEach (h : Laid storage tree base) (hrun : '/' ∉ run.toList)
    (artifacts : List Artifact) (hnodup : artifacts.Nodup)
    (hplain : ∀ artifact ∈ artifacts, tree.get? (spot base .running artifact run) ≠ some .directory)
    (fault : Option FileFault) :
    Gone tree (storage.archiveEach run (tree, fault) artifacts).1 base run
        (artifacts.filter (movable storage tree base run)) ∧
      FileTree.Steady tree (storage.archiveEach run (tree, fault) artifacts).1 ∧
      ((storage.archiveEach run (tree, fault) artifacts).2 = none ↔
        fault = none ∧ ∀ artifact ∈ artifacts, movable storage tree base run artifact = true) := by
  induction artifacts generalizing tree fault with
  | nil => exact ⟨Gone.refl tree base run, h.sound.steady, by simp [Storage.archiveEach]⟩
  | cons artifact rest ih =>
    obtain ⟨hnew, hrest⟩ := List.nodup_cons.mp hnodup
    obtain ⟨hgone, hsteady, hnone⟩ := h.archive hrun artifact (hplain artifact (by simp))
    obtain ⟨moved, cause, hresult⟩ : ∃ moved cause,
        storage.archive tree run artifact = (moved, cause) := ⟨_, _, rfl⟩
    have hstep : storage.archiveEach run (tree, fault) (artifact :: rest) =
        storage.archiveEach run (moved, cause.or fault) rest := by
      simp only [Storage.archiveEach, List.foldl_cons, hresult]
    rw [hresult] at hgone hsteady hnone
    -- the other files are where they were
    have hsame : ∀ other ∈ rest, ∀ shelf,
        moved.get? (spot base shelf other run) = tree.get? (spot base shelf other run) := by
      intro other hother shelf
      refine hgone.elsewhere _ fun a ha shelf' => spot_ne_of_artifact ?_ _ _ _ _
      rintro rfl
      exact hnew (List.mem_singleton.mp (List.mem_of_mem_filter ha) ▸ hother)
    have hmovable : ∀ other ∈ rest, movable storage moved base run other =
        movable storage tree base run other :=
      fun other hother => movable_congr (hsame other hother)
    obtain ⟨hgoneRest, hsteadyRest, hnoneRest⟩ := ih (h.congr hsteady) hrest
      (fun other hother => by
        rw [hsame other hother]
        exact hplain other (List.mem_cons_of_mem _ hother)) (cause.or fault)
    rw [hstep]
    refine ⟨?_, hsteady.trans hsteadyRest, ?_⟩
    · have hsplit : (artifact :: rest).filter (movable storage tree base run) =
          [artifact].filter (movable storage tree base run) ++
            rest.filter (movable storage moved base run) := by
        rw [List.filter_congr hmovable, ← List.filter_append, List.singleton_append]
      rw [hsplit]
      refine hgone.trans hgoneRest fun a ha hmem => ?_
      exact hnew (List.mem_singleton.mp (List.mem_of_mem_filter ha) ▸ List.mem_of_mem_filter hmem)
    · rw [hnoneRest, List.forall_mem_cons, ← hnone]
      simp only [Option.or_eq_none_iff]
      have hforall : (∀ a ∈ rest, movable storage moved base run a = true) ↔
          ∀ a ∈ rest, movable storage tree base run a = true :=
        forall₂_congr fun a ha => by rw [hmovable a ha]
      rw [hforall]
      rw [and_assoc, and_left_comm]

theorem moveToHistory_eq (storage : Storage) (tree : FileTree) (run : String) :
    storage.moveToHistory tree run = ((storage.archiveEach run (tree, none) Artifact.all).1,
      match (storage.archiveEach run (tree, none) Artifact.all).2 with
      | some fault => .error (.file fault)
      | none => .ok ()) := rfl

/-- Moving a run takes all of its files that can go, and is without fault exactly if all of them
can. -/
theorem Laid.moveToHistory (h : Laid storage tree base) (hrun : '/' ∉ run.toList)
    (hplain : ∀ artifact, tree.get? (spot base .running artifact run) ≠ some .directory) :
    Gone tree (storage.moveToHistory tree run).1 base run
        (Artifact.all.filter (movable storage tree base run)) ∧
      FileTree.Steady tree (storage.moveToHistory tree run).1 ∧
      ((storage.moveToHistory tree run).2 = .ok () ↔
        ∀ artifact, movable storage tree base run artifact = true) := by
  obtain ⟨hgone, hsteady, hnone⟩ := h.archiveEach hrun Artifact.all (by decide)
    (fun artifact _ => hplain artifact) none
  rw [moveToHistory_eq]
  refine ⟨hgone, hsteady, ?_⟩
  have hall : (∀ artifact ∈ Artifact.all, movable storage tree base run artifact = true) ↔
      ∀ artifact, movable storage tree base run artifact = true :=
    ⟨fun hm artifact => hm artifact artifact.mem_all, fun hm artifact _ => hm artifact⟩
  rw [← hall]
  cases hcause : (storage.archiveEach run (tree, none) Artifact.all).2 with
  | none => simpa using (hnone.mp hcause).2
  | some fault =>
    simp only [hcause, reduceCtorEq, true_and, false_iff] at hnone
    simpa using hnone

/-- Moving a run without fault takes all of its files. -/
theorem Laid.moveToHistory_of_ok (h : Laid storage tree base) (hrun : '/' ∉ run.toList)
    (hplain : ∀ artifact, tree.get? (spot base .running artifact run) ≠ some .directory)
    (hok : (storage.moveToHistory tree run).2 = .ok ()) :
    Gone tree (storage.moveToHistory tree run).1 base run Artifact.all ∧ Fits storage run := by
  obtain ⟨hgone, _, hmovable⟩ := h.moveToHistory hrun hplain
  have hall := hmovable.mp hok
  rw [List.filter_eq_self.mpr fun artifact _ => hall artifact] at hgone
  exact ⟨hgone, (storage.fits_iff run).mpr fun artifact => takes_of_movable (hall artifact)⟩

/-! ## Places without directories -/

/-- No directory is where a file of a run goes. -/
def Plain (tree : FileTree) (base : Path) (run : String) : Prop :=
  ∀ shelf artifact, tree.get? (spot base shelf artifact run) ≠ some .directory

theorem Plain.congr (h : Plain tree base run) (hsteady : FileTree.Steady tree next) :
    Plain next base run :=
  fun shelf artifact hget => h shelf artifact ((hsteady.directory_iff _).mp hget)

theorem Plain.movable_eq (h : Plain tree base run) (artifact : Artifact) :
    movable storage tree base run artifact = storage.takes run artifact := by
  simp [movable, h .history artifact]

theorem Laid.moveToHistory_ok_iff (h : Laid storage tree base) (hrun : '/' ∉ run.toList)
    (hplain : Plain tree base run) :
    (storage.moveToHistory tree run).2 = .ok () ↔ Fits storage run := by
  rw [(h.moveToHistory hrun fun artifact => hplain _ _).2.2, fits_iff]
  simp only [hplain.movable_eq]

/-- A storage with its directories, and no directory where a file of a run goes. -/
structure Tidy (storage : Storage) (tree : FileTree) (base : Path) : Prop where
  laid : Laid storage tree base
  plain : ∀ shelf artifact run, tree.get? (spot base shelf artifact run) ≠ some .directory

theorem Tidy.congr (h : Tidy storage tree base) (hsteady : FileTree.Steady tree next) :
    Tidy storage next base :=
  ⟨h.laid.congr hsteady,
    fun shelf artifact run hget => h.plain shelf artifact run ((hsteady.directory_iff _).mp hget)⟩

theorem Tidy.plainAt (h : Tidy storage tree base) (run : String) : Plain tree base run :=
  fun shelf artifact => h.plain shelf artifact run

/-- Directories whose names have no dot are in the way of no file of a run. -/
theorem Laid.tidy (h : Laid storage tree base)
    (hdots : ∀ e ∈ tree.entries, e.2 = .directory → '.' ∉ (e.1.getLastD "").toList) :
    Tidy storage tree base := by
  refine ⟨h, fun shelf artifact run hget => ?_⟩
  have hspot : spot base shelf artifact run ≠ [] := by simp [spot]
  have hdot := hdots _ ((h.sound.mem_iff hspot .directory).mpr hget) rfl
  rw [spot, List.getLastD_concat, Artifact.fileName_toList] at hdot
  simp at hdot

theorem Tidy.movable_eq (h : Tidy storage tree base) (run : String) (artifact : Artifact) :
    movable storage tree base run artifact = storage.takes run artifact :=
  (h.plainAt run).movable_eq artifact

theorem Tidy.moveToHistory_ok_iff (h : Tidy storage tree base) (hrun : '/' ∉ run.toList) :
    (storage.moveToHistory tree run).2 = .ok () ↔ Fits storage run :=
  h.laid.moveToHistory_ok_iff hrun (h.plainAt run)

/-! ## Runs that were left behind -/

/-- The file of the state of a run, or one that is not there yet and may become it. -/
def StateFile (tree : FileTree) (base : Path) (run : String) (id : Nat) : Prop :=
  (∃ c, tree.get? (spot base .running .state run) = some (.file id c)) ∨
    tree.get? (spot base .running .state run) = none ∧ tree.nextId ≤ id

/-- What a run that has been canceled has as its state: the new one; its beginning, if the disk does
not take all of it; and the old one, if its file may not be written. -/
inductive CanceledState (tree : FileTree) (base : Path) (run : String) : Nat → Contents → Prop where
  | told {id : Nat} (own : StateFile tree base run id) (room : id ∉ tree.full)
      (mayOpen : tree.MayOpen (spot base .running .state run)) :
      CanceledState tree base run id (.text RunState.canceled.label)
  | cut {id taken : Nat} (own : StateFile tree base run id) (full : id ∈ tree.full)
      (mayOpen : tree.MayOpen (spot base .running .state run)) :
      CanceledState tree base run id (.beginning RunState.canceled.label taken)
  | kept {id : Nat} {c : Contents}
      (there : tree.get? (spot base .running .state run) = some (.file id c))
      (locked : id ∈ tree.locked) : CanceledState tree base run id c

/-- The state of a run can be stored. -/
def Writable (tree : FileTree) (base : Path) (run : String) : Prop :=
  tree.MayOpen (spot base .running .state run) ∧
    ∀ id, StateFile tree base run id → id ∉ tree.full

theorem Writable.of_willing (h : tree.Willing) (base : Path) (run : String) :
    Writable tree base run :=
  ⟨h.mayOpen _, by simp [h.roomy]⟩

theorem CanceledState.eq_canceled {id : Nat} {c : Contents} (h : CanceledState tree base run id c)
    (hwritable : Writable tree base run) : c = .text RunState.canceled.label := by
  cases h with
  | told => rfl
  | cut own full => exact absurd full (hwritable.2 id own)
  | kept there locked => exact absurd locked (hwritable.1 id c there)

/-- What a run can have as its state does not depend on what happens elsewhere. -/
theorem CanceledState.congr {id : Nat} {c : Contents} (h : CanceledState middle base run id c)
    (hsteady : FileTree.Steady tree middle)
    (hsame : middle.get? (spot base .running .state run) =
      tree.get? (spot base .running .state run)) : CanceledState tree base run id c := by
  have hnext := hsteady.nextId_le
  have hown : StateFile middle base run id → StateFile tree base run id := by
    unfold StateFile
    rw [hsame]
    exact Or.imp_right (And.imp_right fun hle => Nat.le_trans hnext hle)
  have hmay : middle.MayOpen (spot base .running .state run) →
      tree.MayOpen (spot base .running .state run) := by
    unfold FileTree.MayOpen
    rw [hsame, hsteady.locked_eq]
    exact fun h => h
  cases h with
  | told own room mayOpen => exact .told (hown own) (hsteady.full_eq ▸ room) (hmay mayOpen)
  | cut own full mayOpen => exact .cut (hown own) (hsteady.full_eq ▸ full) (hmay mayOpen)
  | kept there locked => exact .kept (hsame ▸ there) (hsteady.locked_eq ▸ locked)

/-- What is left when these runs have been canceled and have gone into the history. -/
structure Swept (tree next : FileTree) (base : Path) (runs : List String) : Prop where
  running : ∀ run ∈ runs, ∀ artifact, next.get? (spot base .running artifact run) = none
  program : ∀ run ∈ runs, next.get? (spot base .history .program run) =
    (tree.get? (spot base .running .program run)).or (tree.get? (spot base .history .program run))
  state : ∀ run ∈ runs, ∃ id c, CanceledState tree base run id c ∧
    next.get? (spot base .history .state run) = some (.file id c)
  log : ∀ run ∈ runs, next.get? (spot base .history .log run) =
    (tree.get? (spot base .running .log run)).or (tree.get? (spot base .history .log run))
  elsewhere : ∀ p, (∀ run ∈ runs, ∀ shelf artifact, p ≠ spot base shelf artifact run) →
    next.get? p = tree.get? p

/-- Where states can be stored, those of the runs tell that they have been canceled. -/
theorem Swept.canceled {runs : List String} (h : Swept tree next base runs) (hmem : run ∈ runs)
    (hwritable : Writable tree base run) : ∃ id, next.get? (spot base .history .state run) =
      some (.file id (.text RunState.canceled.label)) := by
  obtain ⟨id, c, hstate, hget⟩ := h.state run hmem
  obtain rfl := hstate.eq_canceled hwritable
  exact ⟨id, hget⟩

theorem Swept.nil (tree : FileTree) (base : Path) : Swept tree tree base [] :=
  ⟨by simp, by simp, by simp, by simp, fun _ _ => rfl⟩

theorem Swept.cons {rest : List String} (h₁ : Swept tree middle base [run])
    (h₂ : Swept middle next base rest) (hsteady : FileTree.Steady tree middle) (hnew : run ∉ rest) :
    Swept tree next base (run :: rest) := by
  have hkept : ∀ shelf artifact, next.get? (spot base shelf artifact run) =
      middle.get? (spot base shelf artifact run) := by
    intro shelf artifact
    refine h₂.elsewhere _ fun run' hmem shelf' artifact' => spot_ne_of_run ?_ _ _ _ _
    rintro rfl
    exact hnew hmem
  have hbefore : ∀ run' ∈ rest, ∀ shelf artifact, middle.get? (spot base shelf artifact run') =
      tree.get? (spot base shelf artifact run') := by
    intro run' hmem shelf artifact
    refine h₁.elsewhere _ ?_
    simp only [List.forall_mem_singleton]
    refine fun shelf' artifact' => spot_ne_of_run ?_ _ _ _ _
    rintro rfl
    exact hnew hmem
  refine ⟨?_, ?_, ?_, ?_, ?_⟩
  · intro run' hmem artifact
    rcases List.mem_cons.mp hmem with rfl | hmem
    · rw [hkept, h₁.running _ (by simp)]
    · exact h₂.running _ hmem artifact
  · intro run' hmem
    rcases List.mem_cons.mp hmem with rfl | hmem
    · rw [hkept, h₁.program _ (by simp)]
    · rw [h₂.program _ hmem, hbefore _ hmem, hbefore _ hmem]
  · intro run' hmem
    rcases List.mem_cons.mp hmem with rfl | hmem
    · rw [hkept]
      exact h₁.state _ (by simp)
    · obtain ⟨id, c, hstate, hget⟩ := h₂.state _ hmem
      exact ⟨id, c, hstate.congr hsteady (hbefore _ hmem _ _), hget⟩
  · intro run' hmem
    rcases List.mem_cons.mp hmem with rfl | hmem
    · rw [hkept, h₁.log _ (by simp)]
    · rw [h₂.log _ hmem, hbefore _ hmem, hbefore _ hmem]
  · intro p hp
    rw [h₂.elsewhere p fun run' hmem => hp run' (List.mem_cons_of_mem _ hmem),
      h₁.elsewhere p fun run' hmem => hp run' (by simp [List.mem_singleton.mp hmem])]

/-- The tree after one run has been marked as canceled, as far as that goes. -/
def mark (storage : Storage) (tree : FileTree) (run : String) : FileTree :=
  FileTree.after (storage.updateState tree run .canceled)

theorem cancelAll_nil (storage : Storage) (tree : FileTree) :
    storage.cancelAll tree [] = (tree, .ok ()) := rfl

theorem cancelAll_cons (storage : Storage) (tree : FileTree) (run : String) (rest : List String) :
    storage.cancelAll tree (run :: rest) =
      match storage.moveToHistory (storage.mark tree run) run with
      | (moved, .ok ()) => storage.cancelAll moved rest
      | (moved, .error fault) => (moved, .error fault) := rfl

/-- A run whose files fit has a state after it has been marked, whatever has become of that. -/
theorem Laid.mark_of_fits (h : Laid storage tree base) (hrun : '/' ∉ run.toList)
    (hplain : Plain tree base run) (hfits : storage.nameFault .running .state run = none) :
    ∃ id c, CanceledState tree base run id c ∧
      (storage.mark tree run).get? (spot base .running .state run) = some (.file id c) := by
  have hrestated := h.restated hrun .canceled
  unfold Storage.mark
  generalize storage.updateState tree run .canceled = result at hrestated ⊢
  have hown : ∀ {id c marked}, FileTree.Holds tree (base ++ ["running"])
      (Artifact.fileName .state run) id c marked → StateFile tree base run id := by
    intro id c marked hholds
    rcases hholds.before with ⟨hfree, rfl, _⟩ | ⟨old, hold, _⟩
    · exact .inr ⟨hfree, Nat.le_refl _⟩
    · exact .inl ⟨old, hold⟩
  cases hrestated with
  | stored _ room mayOpen holds => exact ⟨_, _, .told (hown holds) room mayOpen, holds.here⟩
  | cut _ full mayOpen holds => exact ⟨_, _, .cut (hown holds) full mayOpen, holds.here⟩
  | barred _ there => exact absurd there (hplain _ _)
  | locked _ there locked => exact ⟨_, _, .kept there locked, there⟩
  | unfit unfit => cases hfits.symm.trans unfit

theorem Laid.mark (h : Laid storage tree base) (hrun : '/' ∉ run.toList) :
    FileTree.Steady tree (storage.mark tree run) ∧
      ∀ p, p ≠ spot base .running .state run → (storage.mark tree run).get? p = tree.get? p := by
  have hafter := h.after_updateState hrun .canceled
  unfold Storage.mark
  rcases hafter with heq | ⟨id, held, hholds, hs⟩
  · rw [heq]
    exact ⟨h.sound.steady, fun _ _ => rfl⟩
  · exact ⟨hholds.steady hs, fun p hp => hholds.elsewhere hp⟩

theorem Tidy.mark (h : Tidy storage tree base) (hrun : '/' ∉ run.toList) :
    FileTree.Steady tree (storage.mark tree run) ∧
      ∀ p, p ≠ spot base .running .state run → (storage.mark tree run).get? p = tree.get? p :=
  h.laid.mark hrun

/-- One run is canceled and moved, if its files fit; nothing but files changes. -/
theorem Laid.cancelOne (h : Laid storage tree base) (hrun : '/' ∉ run.toList)
    (hplain : Plain tree base run) :
    FileTree.Steady tree (storage.moveToHistory (storage.mark tree run) run).1 ∧
      ((storage.moveToHistory (storage.mark tree run) run).2 = .ok () ↔ Fits storage run) := by
  have hsteady := (h.mark hrun).1
  have hmarked := h.congr hsteady
  have hstill := hplain.congr hsteady
  exact ⟨hsteady.trans (hmarked.moveToHistory hrun fun artifact => hstill _ _).2.1,
    hmarked.moveToHistory_ok_iff hrun hstill⟩

theorem Laid.swept_of_fits (h : Laid storage tree base) (hrun : '/' ∉ run.toList)
    (hplain : Plain tree base run) (hfits : Fits storage run) :
    Swept tree (storage.moveToHistory (storage.mark tree run) run).1 base [run] := by
  obtain ⟨id, c, hstate, hhere⟩ := h.mark_of_fits hrun hplain (hfits .running .state)
  obtain ⟨hsteady, helsewhere⟩ := h.mark hrun
  obtain ⟨hgone, _⟩ := (h.congr hsteady).moveToHistory_of_ok hrun
    (fun artifact => hplain.congr hsteady _ _) ((h.cancelOne hrun hplain).2.mpr hfits)
  have hkept : ∀ shelf artifact, artifact ≠ .state →
      (storage.mark tree run).get? (spot base shelf artifact run) =
        tree.get? (spot base shelf artifact run) :=
    fun shelf artifact hne => helsewhere _ (spot_ne_of_artifact hne _ _ _ _)
  refine ⟨?_, ?_, ?_, ?_, ?_⟩
  · simp only [List.forall_mem_singleton]
    exact fun artifact => hgone.running artifact artifact.mem_all
  · simp only [List.forall_mem_singleton]
    rw [hgone.history .program (by decide), hkept _ _ (by decide), hkept _ _ (by decide)]
  · simp only [List.forall_mem_singleton]
    exact ⟨id, c, hstate, by rw [hgone.history .state (by decide), hhere]; rfl⟩
  · simp only [List.forall_mem_singleton]
    rw [hgone.history .log (by decide), hkept _ _ (by decide), hkept _ _ (by decide)]
  · intro p hp
    simp only [List.forall_mem_singleton] at hp
    rw [hgone.elsewhere p fun artifact _ shelf => hp shelf artifact, helsewhere p (hp _ _)]

/-- Runs in whose places no directory is are all canceled and moved if their files fit, and a fault
stops at the first whose files do not. -/
theorem Laid.cancelAll (h : Laid storage tree base) {runs : List String} (hnodup : runs.Nodup)
    (hruns : ∀ run ∈ runs, '/' ∉ run.toList) (hplain : ∀ run ∈ runs, Plain tree base run) :
    FileTree.Steady tree (storage.cancelAll tree runs).1 ∧
      ((storage.cancelAll tree runs).2 = .ok () ↔ ∀ run ∈ runs, Fits storage run) ∧
      ((storage.cancelAll tree runs).2 = .ok () →
        Swept tree (storage.cancelAll tree runs).1 base runs) := by
  induction runs generalizing tree with
  | nil =>
    rw [cancelAll_nil]
    exact ⟨h.sound.steady, by simp, fun _ => Swept.nil tree base⟩
  | cons run rest ih =>
    obtain ⟨hnew, hrest⟩ := List.nodup_cons.mp hnodup
    have hrun := hruns run (by simp)
    have hhere := hplain run (by simp)
    obtain ⟨hsteady, hiff⟩ := h.cancelOne hrun hhere
    have hone := h.swept_of_fits hrun hhere
    rw [cancelAll_cons, List.forall_mem_cons, ← hiff]
    cases hmoved : storage.moveToHistory (storage.mark tree run) run with
    | mk moved result =>
      rw [hmoved] at hsteady hiff hone
      cases result with
      | error fault => exact ⟨hsteady, by simp, by simp⟩
      | ok =>
        obtain ⟨hsteadyRest, hokRest, hsweptRest⟩ := ih (h.congr hsteady) hrest
          (fun other hmem => hruns other (List.mem_cons_of_mem _ hmem))
          (fun other hmem => (hplain other (List.mem_cons_of_mem _ hmem)).congr hsteady)
        refine ⟨hsteady.trans hsteadyRest, by simpa using hokRest, fun hok => ?_⟩
        exact (hone (hiff.mp rfl)).cons (hsweptRest hok) hsteady hnew

theorem Tidy.cancelAll (h : Tidy storage tree base) {runs : List String} (hnodup : runs.Nodup)
    (hruns : ∀ run ∈ runs, '/' ∉ run.toList) (hok : (storage.cancelAll tree runs).2 = .ok ()) :
    Swept tree (storage.cancelAll tree runs).1 base runs ∧
      Tidy storage (storage.cancelAll tree runs).1 base := by
  obtain ⟨hsteady, _, hswept⟩ := h.laid.cancelAll hnodup hruns fun run _ => h.plainAt run
  exact ⟨hswept hok, h.congr hsteady⟩

/-- A run that has a file at its place has no slash in its name. -/
theorem slash_not_mem_of_get? (h : tree.Sound) {shelf : Shelf} {artifact : Artifact}
    {entry : Entry} (hget : tree.get? (spot base shelf artifact run) = some entry) :
    '/' ∉ run.toList := by
  have hname := (h.named _ _ _ hget).slashless
  rw [Artifact.fileName_toList] at hname
  exact fun hmem => hname (List.mem_append_left _ hmem)

theorem slash_not_mem_of_lists (h : tree.Sound) {shelf : Shelf} {names : List String}
    (hlists : Lists storage tree base shelf names) : ∀ run ∈ names, '/' ∉ run.toList := by
  intro run hmem
  obtain ⟨⟨_, _, _, hget⟩, _⟩ := (hlists.mem_iff run).mp hmem
  exact slash_not_mem_of_get? h hget

theorem sweep_of_error {fault : StorageFault} (h : storage.listRunning tree = .error fault) :
    storage.sweep tree = (tree, .error fault) := by
  rw [sweep, h]

theorem sweep_of_ok {runs : List String} (h : storage.listRunning tree = .ok runs) :
    storage.sweep tree =
      ((storage.cancelAll tree runs).1, (storage.cancelAll tree runs).2.map fun _ => runs) := by
  rw [sweep, h]

/-- A sweep without fault cancels and moves exactly the runs that have their program file with the
runs that are going on. -/
theorem Tidy.sweep (h : Tidy storage tree base) {runs : List String}
    (hok : (storage.sweep tree).2 = .ok runs) :
    Lists storage tree base .running runs ∧ Swept tree (storage.sweep tree).1 base runs ∧
      Tidy storage (storage.sweep tree).1 base := by
  cases hrunning : storage.listRunning tree with
  | error fault =>
    rw [sweep_of_error hrunning] at hok
    cases hok
  | ok names =>
    rw [sweep_of_ok hrunning] at hok ⊢
    cases hresult : (storage.cancelAll tree names).2 with
    | error fault => simp [hresult, Except.map] at hok
    | ok =>
      obtain rfl : names = runs := by simpa [hresult, Except.map] using hok
      have hlists : Lists storage tree base .running names := h.laid.lists_of_ok hrunning
      exact ⟨hlists,
        h.cancelAll hlists.nodup (slash_not_mem_of_lists h.laid.sound hlists) hresult⟩

end Moves

end Storage
end DryKiln
