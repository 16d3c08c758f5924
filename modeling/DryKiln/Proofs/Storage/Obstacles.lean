-- Moving a run when something is in the way. What can be moved is moved, whatever holds up the
-- rest; what is held up stays where it is, and a later move takes it when nothing is in its way any
-- more. What holds a file up is reported, with one exception: a directory of the history that is
-- missing is taken for a file that is missing.
import DryKiln.Proofs.Storage.Sweep

namespace DryKiln
namespace Storage

section Obstacles

variable {storage : Storage} {tree middle next later : FileTree} {base : Path} {run : String}
  {artifact : Artifact} {artifacts rest : List Artifact}

/-- A base that can be reached, on a way that does not lead through a directory in the place of a
file of the run. -/
structure Reached (storage : Storage) (tree : FileTree) (base : Path) (run : String) : Prop where
  sound : tree.Sound
  based : tree.walk [] (pathNames storage.base) = .ok base
  apart : ∀ artifact, tree.get? (spot base .running artifact run) = some .directory →
    ∀ p ∈ FileTree.visits [] (pathNames storage.base), ¬ spot base .running artifact run <+: p

/-! ## One file after the other -/

theorem not_below_directory (base : Path) (shelf shelf' : Shelf) (artifact artifact' : Artifact)
    (run : String) :
    ¬ spot base shelf artifact run <+: base ++ shelf'.names artifact' := by
  have hstatus : artifact.fileName run ≠ "status" := artifact.fileName_ne_of_dotless (by decide)
  have hlogs : artifact.fileName run ≠ "logs" := artifact.fileName_ne_of_dotless (by decide)
  simp only [spot, List.append_assoc, List.prefix_append_right_inj]
  cases shelf <;> cases shelf' <;> cases artifact <;> cases artifact' <;>
    simp [Shelf.names, hstatus, hlogs]

/-- What the way of a file depends on is the same in both trees. -/
structure Alike (tree next : FileTree) (base : Path) (run : String) (artifact : Artifact) :
    Prop where
  spots : ∀ shelf rest, next.get? (spot base shelf artifact run ++ rest) =
    tree.get? (spot base shelf artifact run ++ rest)
  shelves : ∀ shelf other, next.get? (base ++ Shelf.names shelf other) =
    tree.get? (base ++ shelf.names other)

theorem Alike.here (h : Alike tree next base run artifact) (shelf : Shelf) :
    next.get? (spot base shelf artifact run) = tree.get? (spot base shelf artifact run) := by
  have hspot := h.spots shelf []
  rwa [List.append_nil] at hspot

theorem Alike.barred_iff (h : Alike tree next base run artifact) (shelf : Shelf) :
    Barred next base shelf artifact ↔ Barred tree base shelf artifact := by
  simp only [Barred, h.shelves]

theorem Alike.lacks_iff (h : Alike tree next base run artifact) (shelf : Shelf) :
    Lacks next base shelf artifact ↔ Lacks tree base shelf artifact := by
  simp only [Lacks, h.shelves, h.barred_iff]

theorem Alike.clear_iff (h : Alike tree next base run artifact) :
    Clear storage next base run artifact ↔ Clear storage tree base run artifact := by
  have hyields : next.Yields (spot base .running artifact run) (spot base .history artifact run) ↔
      tree.Yields (spot base .running artifact run) (spot base .history artifact run) := by
    simp only [FileTree.Yields, h.here, h.spots]
  constructor
  · rintro ⟨htakes, hhome, hy⟩
    exact ⟨htakes, (h.shelves _ _).symm.trans hhome, hyields.mp hy⟩
  · rintro ⟨htakes, hhome, hy⟩
    exact ⟨htakes, (h.shelves _ _).trans hhome, hyields.mpr hy⟩

/-- What has become of files of a run: those with nothing in their way have gone into the history,
the others are where they were, and so is everything else. -/
structure Shifted (storage : Storage) (tree next : FileTree) (base : Path) (run : String)
    (artifacts : List Artifact) : Prop where
  moved : ∀ artifact ∈ artifacts, tree.get? (spot base .running artifact run) ≠ none →
    Clear storage tree base run artifact →
      FileTree.Went tree next (spot base .running artifact run) (spot base .history artifact run)
  stayed : ∀ artifact ∈ artifacts, (tree.get? (spot base .running artifact run) ≠ none →
    ¬ Clear storage tree base run artifact) → ∀ shelf rest,
      next.get? (spot base shelf artifact run ++ rest) =
        tree.get? (spot base shelf artifact run ++ rest)
  elsewhere : ∀ p, (∀ artifact ∈ artifacts, ∀ shelf, ¬ spot base shelf artifact run <+: p) →
    next.get? p = tree.get? p

theorem Shifted.refl (storage : Storage) (tree : FileTree) (base : Path) (run : String) :
    Shifted storage tree tree base run [] :=
  ⟨by simp, by simp, fun _ _ => rfl⟩

theorem Shifted.alike (h : Shifted storage tree next base run artifacts)
    (hother : artifact ∉ artifacts) : Alike tree next base run artifact := by
  refine ⟨fun shelf rest => h.elsewhere _ fun other hmem shelf' hbelow => ?_,
    fun shelf other => h.elsewhere _ fun _ _ _ => not_below_directory _ _ _ _ _ _⟩
  obtain ⟨_, rfl, _⟩ := spot_of_below hbelow
  exact hother hmem

theorem Shifted.cons (h₁ : Shifted storage tree middle base run [artifact])
    (h₂ : Shifted storage middle next base run rest) (hnew : artifact ∉ rest) :
    Shifted storage tree next base run (artifact :: rest) := by
  have hlater := h₂.alike hnew
  have hbefore : ∀ other ∈ rest, Alike tree middle base run other := by
    intro other hmem
    refine h₁.alike fun hsame => ?_
    exact hnew (List.mem_singleton.mp hsame ▸ hmem)
  refine ⟨?_, ?_, ?_⟩
  · intro other hmem hthere hclear
    rcases List.mem_cons.mp hmem with rfl | hmem
    · obtain ⟨hgoal, hgone⟩ := h₁.moved _ (by simp) hthere hclear
      exact ⟨fun more => (hlater.spots _ _).trans (hgoal more),
        fun more => (hlater.spots _ _).trans (hgone more)⟩
    · have halike := hbefore other hmem
      obtain ⟨hgoal, hgone⟩ := h₂.moved other hmem (by rwa [halike.here])
        (halike.clear_iff.mpr hclear)
      exact ⟨fun more => (hgoal more).trans (halike.spots _ _), hgone⟩
  · intro other hmem hheld shelf more
    rcases List.mem_cons.mp hmem with rfl | hmem
    · rw [hlater.spots, h₁.stayed _ (by simp) hheld]
    · have halike := hbefore other hmem
      rw [h₂.stayed other hmem, halike.spots]
      rwa [halike.here, halike.clear_iff]
  · intro p hp
    rw [h₂.elsewhere p fun other hmem => hp other (List.mem_cons_of_mem _ hmem),
      h₁.elsewhere p fun other hmem => hp other (by simp [List.mem_singleton.mp hmem])]

/-- Where nothing has changed, no file has been one that could be moved. -/
theorem shifted_self (hheld : tree.get? (spot base .running artifact run) ≠ none →
    ¬ Clear storage tree base run artifact) :
    Shifted storage tree tree base run [artifact] := by
  refine ⟨?_, fun _ _ _ _ _ => rfl, fun _ _ => rfl⟩
  simp only [List.forall_mem_singleton]
  exact fun hthere hclear => absurd hclear (hheld hthere)

theorem moved_of_clear (hs : tree.Sound)
    (hthere : tree.get? (spot base .running artifact run) ≠ none)
    (hclear : Clear storage tree base run artifact) :
    FileTree.Moved tree
      (tree.moveFile (spot base .running artifact run) (spot base .history artifact run))
      (spot base .running artifact run) (spot base .history artifact run) :=
  FileTree.moved_moveFile hthere (hs.bare_of_yields hclear.yields) (not_below_spot _ _ _)

theorem shifted_of_moved (hs : tree.Sound)
    (hthere : tree.get? (spot base .running artifact run) ≠ none)
    (hclear : Clear storage tree base run artifact) :
    Shifted storage tree
      (tree.moveFile (spot base .running artifact run) (spot base .history artifact run)) base run
      [artifact] := by
  have hmoved := moved_of_clear hs hthere hclear
  refine ⟨?_, ?_, ?_⟩
  · simp only [List.forall_mem_singleton]
    exact fun _ _ => hmoved.toWent
  · simp only [List.forall_mem_singleton]
    exact fun hheld => absurd hclear (hheld hthere)
  · simp only [List.forall_mem_singleton]
    exact fun p hp => hmoved.elsewhere p (hp .running) (hp .history)

/-- What has been moved was not on the way to the base, so this is found as before. -/
theorem Reached.moveFile (h : Reached storage tree base run)
    (hthere : tree.get? (spot base .running artifact run) ≠ none)
    (hclear : Clear storage tree base run artifact) :
    Reached storage
      (tree.moveFile (spot base .running artifact run) (spot base .history artifact run)) base
      run := by
  have hmoved := moved_of_clear h.sound hthere hclear
  have hbare := h.sound.bare_of_yields hclear.yields
  obtain ⟨entry, hentry⟩ := Option.ne_none_iff_exists'.mp hthere
  refine ⟨?_, FileTree.walk_of_visits (fun p hp hdirectory => ?_) h.based, ?_⟩
  · exact h.sound.moveFile hthere hbare (not_below_spot _ _ _) hclear.home
      (h.sound.named _ _ _ hentry)
  · by_cases hgoal : spot base .history artifact run <+: p
    · obtain ⟨more, rfl⟩ := hgoal
      by_cases hmore : more = []
      · subst hmore
        rw [List.append_nil] at hdirectory
        -- only a directory takes the place of one
        have hsource : tree.get? (spot base .running artifact run) = some .directory := by
          rcases hclear.yields with hnone | ⟨_, hplain⟩ | ⟨hsource, _⟩
          · cases hnone.symm.trans hdirectory
          · exact absurd hdirectory hplain
          · exact hsource
        rw [hmoved.there, List.append_nil, hsource]
      · cases (hbare more hmore).symm.trans hdirectory
    by_cases hsource : spot base .running artifact run <+: p
    · by_cases hkind : tree.get? (spot base .running artifact run) = some .directory
      · exact absurd hsource (h.apart artifact hkind p hp)
      · obtain ⟨more, rfl⟩ := hsource
        by_cases hmore : more = []
        · subst hmore
          rw [List.append_nil] at hdirectory
          exact absurd hdirectory hkind
        · cases (h.sound.bare_of_plain hkind more hmore).symm.trans hdirectory
    · rw [hmoved.elsewhere p hsource hgoal, hdirectory]
  · intro other hdirectory
    by_cases hsame : other = artifact
    · subst hsame
      have hgone := hmoved.gone []
      rw [List.append_nil] at hgone
      cases hgone.symm.trans hdirectory
    · have halike := (shifted_of_moved h.sound hthere hclear).alike
        (fun hmem => hsame (List.mem_singleton.mp hmem))
      rw [halike.here] at hdirectory
      exact h.apart other hdirectory

/-- Nothing holds up a file of a run, if it is there: nothing is in its way, or it is not there and
no file is where a directory should be. -/
def Unhindered (storage : Storage) (tree : FileTree) (base : Path) (run : String)
    (artifact : Artifact) : Prop :=
  storage.takes run artifact = true ∧ (∀ shelf, ¬ Barred tree base shelf artifact) ∧
    (tree.get? (spot base .running artifact run) ≠ none → Clear storage tree base run artifact)

theorem Clear.not_barred (hs : tree.Sound)
    (hthere : tree.get? (spot base .running artifact run) ≠ none)
    (hclear : Clear storage tree base run artifact) (shelf : Shelf) :
    ¬ Barred tree base shelf artifact := by
  obtain ⟨entry, hentry⟩ := Option.ne_none_iff_exists'.mp hthere
  have hrunning : tree.get? (base ++ Shelf.running.names artifact) = some .directory :=
    hs.above _ _ _ hentry
  have hhistory : tree.get? (base ++ Shelf.history.names .program) = some .directory := by
    have hhome := hclear.home
    cases artifact with
    | program => exact hhome
    | state =>
      exact hs.directory_of_below (List.cons_ne_nil "status" [])
        (by simpa [Shelf.names] using hhome)
    | log =>
      exact hs.directory_of_below (List.cons_ne_nil "logs" []) (by simpa [Shelf.names] using hhome)
  rintro ⟨id, contents, hfile | hfile⟩ <;> cases shelf
  · cases hrunning.symm.trans hfile
  · cases hclear.home.symm.trans hfile
  · cases hrunning.symm.trans hfile
  · cases hhistory.symm.trans hfile

/-- The move of one file. -/
theorem Reached.archive (h : Reached storage tree base run) (hrun : '/' ∉ run.toList)
    (artifact : Artifact) :
    Reached storage (storage.archive tree run artifact).1 base run ∧
      Shifted storage tree (storage.archive tree run artifact).1 base run [artifact] ∧
      ((storage.archive tree run artifact).2 = none →
        tree.get? (spot base .running artifact run) ≠ none →
          Clear storage tree base run artifact ∨ Lacks tree base .history artifact) ∧
      (Unhindered storage tree base run artifact →
        (storage.archive tree run artifact).2 = none) := by
  have houtcome := outcome h.sound h.based hrun artifact
  cases hresult : storage.archive tree run artifact with
  | mk next fault =>
    rw [hresult] at houtcome
    cases houtcome with
    | moved there clear =>
      exact ⟨h.moveFile there clear, shifted_of_moved h.sound there clear, fun _ _ => .inl clear,
        fun _ => rfl⟩
    | missing absent _ =>
      exact ⟨h, shifted_self fun hthere => absurd absent hthere,
        fun _ hthere => absurd absent hthere, fun _ => rfl⟩
    | left lacks =>
      refine ⟨h, shifted_self fun _ hclear => ?_, fun _ _ => .inr lacks, fun _ => rfl⟩
      cases lacks.1.symm.trans hclear.home
    | held fault cause =>
      refine ⟨h, shifted_self fun hthere hclear => ?_, by simp, fun hfree => ?_⟩
      · rcases cause with htakes | ⟨shelf, hbarred⟩ | ⟨_, hstubborn⟩
        · cases htakes.symm.trans hclear.takes
        · exact hclear.not_barred h.sound hthere shelf hbarred
        · exact hstubborn hclear.yields
      · obtain ⟨htakes, hways, hclear⟩ := hfree
        rcases cause with hrefused | ⟨shelf, hbarred⟩ | ⟨hthere, hstubborn⟩
        · cases hrefused.symm.trans htakes
        · exact absurd hbarred (hways shelf)
        · exact absurd (hclear hthere).yields hstubborn

theorem Alike.unhindered_iff (h : Alike tree next base run artifact) :
    Unhindered storage next base run artifact ↔ Unhindered storage tree base run artifact := by
  simp only [Unhindered, h.here, h.barred_iff, h.clear_iff]

/-- The moves of several files: the tree is known file by file, and so is what is reported. -/
theorem Reached.archiveEach (h : Reached storage tree base run) (hrun : '/' ∉ run.toList)
    (artifacts : List Artifact) (hnodup : artifacts.Nodup) (fault : Option FileFault) :
    Reached storage (storage.archiveEach run (tree, fault) artifacts).1 base run ∧
      Shifted storage tree (storage.archiveEach run (tree, fault) artifacts).1 base run artifacts ∧
      ((storage.archiveEach run (tree, fault) artifacts).2 = none → fault = none ∧
        ∀ artifact ∈ artifacts, tree.get? (spot base .running artifact run) ≠ none →
          Clear storage tree base run artifact ∨ Lacks tree base .history artifact) ∧
      (fault = none → (∀ artifact ∈ artifacts, Unhindered storage tree base run artifact) →
        (storage.archiveEach run (tree, fault) artifacts).2 = none) := by
  induction artifacts generalizing tree fault with
  | nil => exact ⟨h, Shifted.refl storage tree base run, by simp [Storage.archiveEach],
      by simp [Storage.archiveEach]⟩
  | cons artifact rest ih =>
    obtain ⟨hnew, hrest⟩ := List.nodup_cons.mp hnodup
    obtain ⟨hreached, hshifted, hquiet, hfree⟩ := h.archive hrun artifact
    obtain ⟨moved, cause, hresult⟩ : ∃ moved cause,
        storage.archive tree run artifact = (moved, cause) := ⟨_, _, rfl⟩
    have hstep : storage.archiveEach run (tree, fault) (artifact :: rest) =
        storage.archiveEach run (moved, cause.or fault) rest := by
      simp only [Storage.archiveEach, List.foldl_cons, hresult]
    rw [hresult] at hreached hshifted hquiet hfree
    have halike : ∀ other ∈ rest, Alike tree moved base run other := by
      intro other hmem
      refine hshifted.alike fun hsame => hnew ?_
      exact List.mem_singleton.mp hsame ▸ hmem
    obtain ⟨hreachedRest, hshiftedRest, hquietRest, hfreeRest⟩ :=
      ih hreached hrest (cause.or fault)
    rw [hstep]
    refine ⟨hreachedRest, hshifted.cons hshiftedRest hnew, fun hnone => ?_, fun hfault hall => ?_⟩
    · obtain ⟨hboth, hothers⟩ := hquietRest hnone
      obtain ⟨hcause, hfault⟩ := Option.or_eq_none_iff.mp hboth
      refine ⟨hfault, fun other hmem hthere => ?_⟩
      rcases List.mem_cons.mp hmem with rfl | hmem
      · exact hquiet hcause hthere
      · have hsame := halike other hmem
        rw [← hsame.clear_iff, ← hsame.lacks_iff]
        exact hothers other hmem (by rwa [hsame.here])
    · rw [List.forall_mem_cons] at hall
      refine hfreeRest ?_ fun other hmem => ?_
      · rw [Option.or_eq_none_iff]
        exact ⟨hfree hall.1, hfault⟩
      · exact (halike other hmem).unhindered_iff.mpr (hall.2 other hmem)

/-! ## A run -/

/-- What a move of a run does: each file with nothing in its way goes, and all else stays. Without a
fault, the others that are there lack a directory to go to; and nothing in the way is no fault. -/
theorem Reached.moveToHistory (h : Reached storage tree base run) (hrun : '/' ∉ run.toList) :
    Shifted storage tree (storage.moveToHistory tree run).1 base run Artifact.all ∧
      ((storage.moveToHistory tree run).2 = .ok () →
        ∀ artifact, tree.get? (spot base .running artifact run) ≠ none →
          Clear storage tree base run artifact ∨ Lacks tree base .history artifact) ∧
      ((∀ artifact, Unhindered storage tree base run artifact) →
        (storage.moveToHistory tree run).2 = .ok ()) := by
  obtain ⟨_, hshifted, hquiet, hfree⟩ := h.archiveEach hrun Artifact.all (by decide) none
  rw [moveToHistory_eq]
  refine ⟨hshifted, fun hok artifact hthere => ?_, fun hall => ?_⟩
  · cases hfault : (storage.archiveEach run (tree, none) Artifact.all).2 with
    | none => exact (hquiet hfault).2 artifact artifact.mem_all hthere
    | some fault => simp [hfault] at hok
  · simp only [hfree rfl fun artifact _ => hall artifact]

theorem Shifted.running_eq_none_iff (h : Shifted storage tree next base run Artifact.all)
    (artifact : Artifact) : next.get? (spot base .running artifact run) = none ↔
      (tree.get? (spot base .running artifact run) ≠ none →
        Clear storage tree base run artifact) := by
  constructor
  · intro hnone hthere
    by_contra hheld
    have hstayed := h.stayed artifact artifact.mem_all (fun _ => hheld) .running []
    rw [List.append_nil, hnone] at hstayed
    exact hthere hstayed.symm
  · intro hclear
    by_cases hthere : tree.get? (spot base .running artifact run) = none
    · have hstayed :=
        h.stayed artifact artifact.mem_all (fun hnot => absurd hthere hnot) .running []
      rwa [List.append_nil, hthere] at hstayed
    · have hgone := (h.moved artifact artifact.mem_all hthere (hclear hthere)).gone []
      rwa [List.append_nil] at hgone

/-- What holds up files of a run has been cleared away: `later` has what is left in `next`, the tree
after a first move, and nothing holds up a file in it any more. -/
structure Eased (storage : Storage) (next later : FileTree) (base : Path) (run : String) :
    Prop where
  sound : later.Sound
  based : later.walk [] (pathNames storage.base) = .ok base
  sources : ∀ artifact rest, later.get? (spot base .running artifact run ++ rest) =
    next.get? (spot base .running artifact run ++ rest)
  goals : ∀ artifact, next.get? (spot base .running artifact run) = none → ∀ rest,
    later.get? (spot base .history artifact run ++ rest) =
      next.get? (spot base .history artifact run ++ rest)
  free : ∀ artifact, Unhindered storage later base run artifact

theorem Eased.source (h : Eased storage next later base run) (artifact : Artifact) :
    later.get? (spot base .running artifact run) = next.get? (spot base .running artifact run) := by
  have hsource := h.sources artifact []
  rwa [List.append_nil] at hsource

theorem Eased.reached (h : Eased storage next later base run)
    (hreached : Reached storage tree base run)
    (hshifted : Shifted storage tree next base run Artifact.all) :
    Reached storage later base run := by
  refine ⟨h.sound, h.based, fun artifact hdirectory => hreached.apart artifact ?_⟩
  rw [h.source] at hdirectory
  have hheld : tree.get? (spot base .running artifact run) ≠ none →
      ¬ Clear storage tree base run artifact := by
    intro _ hclear
    cases ((hshifted.running_eq_none_iff artifact).mpr fun _ => hclear).symm.trans hdirectory
  have hstayed := hshifted.stayed artifact artifact.mem_all hheld .running []
  rwa [List.append_nil, hdirectory, eq_comm] at hstayed

/-- The second move completes the first. -/
theorem Eased.completes (h : Eased storage next later base run) (hrun : '/' ∉ run.toList)
    (hreached : Reached storage tree base run)
    (hshifted : Shifted storage tree next base run Artifact.all) :
    (storage.moveToHistory later run).2 = .ok () ∧
      ∀ artifact, tree.get? (spot base .running artifact run) ≠ none →
        FileTree.Went tree (storage.moveToHistory later run).1 (spot base .running artifact run)
          (spot base .history artifact run) := by
  obtain ⟨hagain, _, hok⟩ := (h.reached hreached hshifted).moveToHistory hrun
  refine ⟨hok h.free, fun artifact hthere => ?_⟩
  by_cases hclear : Clear storage tree base run artifact
  · -- what went the first time is left alone the second time
    obtain ⟨hgoal, hgone⟩ := hshifted.moved artifact artifact.mem_all hthere hclear
    have hnone := (hshifted.running_eq_none_iff artifact).mpr fun _ => hclear
    have hstayed := hagain.stayed artifact artifact.mem_all
      (fun hnot => absurd ((h.source artifact).trans hnone) hnot)
    refine ⟨fun rest => ?_, fun rest => ?_⟩
    · rw [hstayed, h.goals artifact hnone, hgoal]
    · rw [hstayed, h.sources, hgone]
  · have hstayed := hshifted.stayed artifact artifact.mem_all (fun _ => hclear) .running
    have hleft : later.get? (spot base .running artifact run) ≠ none := by
      have hhere := hstayed []
      rw [List.append_nil] at hhere
      rwa [h.source, hhere]
    obtain ⟨hgoal, hgone⟩ := hagain.moved artifact artifact.mem_all hleft
      ((h.free artifact).2.2 hleft)
    exact ⟨fun rest => by rw [hgoal, h.sources, hstayed], hgone⟩

theorem archive_of_lost_base {fault : FileFault}
    (hbase : tree.walk [] (pathNames storage.base) = .error fault) (hrun : '/' ∉ run.toList)
    (artifact : Artifact) : (storage.archive tree run artifact).1 = tree := by
  by_cases hbad : ∃ shelf, FileTree.badText (storage.file shelf artifact run) ≠ none
  · obtain ⟨fault, hfault, herror⟩ := rename_of_badText tree hrun hbad
    rw [archive_of_error herror hfault]
  · simp only [ne_eq, not_exists, Decidable.not_not] at hbad
    have hrename := rename_of_error hrun (hbad .running) (hbad .history)
      (.inl (FileTree.walk_joinPath_of_error hbase proper_running.slashless))
    by_cases hfault : fault = .notFound
    · subst hfault
      rw [archive_of_notFound hrename]
    · rw [archive_of_error hrename hfault]

/-- Without its base, a storage moves nothing. -/
theorem moveToHistory_of_lost_base {fault : FileFault}
    (hbase : tree.walk [] (pathNames storage.base) = .error fault) (hrun : '/' ∉ run.toList) :
    (storage.moveToHistory tree run).1 = tree := by
  have heach : ∀ (artifacts : List Artifact) (fault : Option FileFault),
      (storage.archiveEach run (tree, fault) artifacts).1 = tree := by
    intro artifacts
    induction artifacts with
    | nil => exact fun _ => rfl
    | cons artifact rest ih =>
      intro fault
      have hsame := archive_of_lost_base hbase hrun artifact
      simp only [Storage.archiveEach, List.foldl_cons, hsame] at ih ⊢
      exact ih _
  rw [moveToHistory_eq, heach]

/-- A move of a run loses nothing, whatever is in its way: each file goes into the history as it is,
or stays as it is, and it goes if it can. A move without a fault has brought all of them into the
history exactly if no directory of the history was missing that one of them wanted to go to; and
when all that was in the way is gone, a further move completes the first. -/
theorem honest_move_iff_no_directory_lacks (storage : Storage) (tree : FileTree)
    (hrun : '/' ∉ run.toList) :
    (∀ fault, tree.walk [] (pathNames storage.base) = .error fault →
      (storage.moveToHistory tree run).1 = tree) ∧
    ∀ base, Reached storage tree base run →
      Shifted storage tree (storage.moveToHistory tree run).1 base run Artifact.all ∧
      ((storage.moveToHistory tree run).2 = .ok () →
        ((∀ artifact,
          (storage.moveToHistory tree run).1.get? (spot base .running artifact run) = none ∧
          (tree.get? (spot base .running artifact run) ≠ none →
            FileTree.Went tree (storage.moveToHistory tree run).1
              (spot base .running artifact run) (spot base .history artifact run))) ↔
          ∀ artifact, tree.get? (spot base .running artifact run) ≠ none →
            ¬ Lacks tree base .history artifact)) ∧
      ∀ later, Eased storage (storage.moveToHistory tree run).1 later base run →
        (storage.moveToHistory later run).2 = .ok () ∧
          ∀ artifact, tree.get? (spot base .running artifact run) ≠ none →
            FileTree.Went tree (storage.moveToHistory later run).1
              (spot base .running artifact run) (spot base .history artifact run) := by
  refine ⟨fun fault hbase => moveToHistory_of_lost_base hbase hrun, fun base h => ?_⟩
  obtain ⟨hshifted, hquiet, _⟩ := h.moveToHistory hrun
  refine ⟨hshifted, fun hok => ?_, fun later heased => heased.completes hrun h hshifted⟩
  constructor
  · intro hgone artifact hthere hlacks
    have hclear := (hshifted.running_eq_none_iff artifact).mp (hgone artifact).1 hthere
    cases hlacks.1.symm.trans hclear.home
  · intro hnone artifact
    have hclear : tree.get? (spot base .running artifact run) ≠ none →
        Clear storage tree base run artifact :=
      fun hthere => (hquiet hok artifact hthere).resolve_right (hnone artifact hthere)
    exact ⟨(hshifted.running_eq_none_iff artifact).mpr hclear,
      fun hthere => hshifted.moved artifact artifact.mem_all hthere (hclear hthere)⟩

end Obstacles

/-- A run whose program file cannot go into the history, since a directory is there. -/
def blockedTree : FileTree where
  entries := bareTree.entries ++
    [(["running", "oak.json"], .file 0 (.text "oak")),
      (["running", "oak.txt"], .file 1 (.text "completed")),
      (["running", "oak.csv"], .file 2 (.text "time,step\n")),
      (["history", "oak.json"], .directory),
      (["history", "oak.json", "note"], .file 3 (.text "in the way"))]
  nextId := 4

/-- What the first move has left, without the directory. -/
def unblockedTree : FileTree :=
  (moveToHistory ⟨""⟩ blockedTree "oak").1.erase (spot [] .history .program "oak")

theorem eased_unblockedTree :
    Eased ⟨""⟩ (moveToHistory ⟨""⟩ blockedTree "oak").1 unblockedTree [] "oak" := by
  have herase := FileTree.get?_erase (moveToHistory ⟨""⟩ blockedTree "oak").1
    (show spot [] .history .program "oak" ≠ [] by decide)
  have hkept : ∀ shelf artifact rest, (shelf, artifact) ≠ (.history, .program) →
      unblockedTree.get? (spot [] shelf artifact "oak" ++ rest) =
        (moveToHistory ⟨""⟩ blockedTree "oak").1.get? (spot [] shelf artifact "oak" ++ rest) := by
    intro shelf artifact rest hne
    rw [unblockedTree, herase, if_neg]
    rw [List.isPrefixOf_iff_prefix]
    intro hbelow
    obtain ⟨hshelf, hartifact, _⟩ := spot_of_below hbelow
    exact hne (by rw [hshelf, hartifact])
  have hthere : ∀ shelf artifact,
      unblockedTree.get? ([] ++ Shelf.names shelf artifact) = some .directory := by
    intro shelf artifact
    cases shelf <;> cases artifact <;> decide
  have hfree : ∀ artifact, Unhindered ⟨""⟩ unblockedTree [] "oak" artifact := by
    intro artifact
    have htakes : takes ⟨""⟩ "oak" artifact = true := by cases artifact <;> decide
    refine ⟨htakes, fun shelf => ?_, fun _ => ⟨htakes, hthere _ _, ?_⟩⟩
    · rintro ⟨id, contents, hfile | hfile⟩ <;> cases (hthere _ _).symm.trans hfile
    · cases artifact with
      | program => exact .inl (by decide)
      | state => exact .inr (.inl (by decide))
      | log => exact .inr (.inl (by decide))
  refine ⟨by decide, rfl, fun artifact rest => hkept _ _ _ (by simp), fun artifact hnone rest => ?_,
    hfree⟩
  refine hkept _ _ _ ?_
  rintro ⟨⟩
  exact absurd hnone (by decide)

theorem blocked_program_goes_later :
    (moveToHistory ⟨""⟩ blockedTree "oak").2 = .error (.file .isDirectory) ∧
      Shifted ⟨""⟩ blockedTree (moveToHistory ⟨""⟩ blockedTree "oak").1 [] "oak" Artifact.all ∧
      (moveToHistory ⟨""⟩ unblockedTree "oak").2 = .ok () ∧
      ∀ artifact, FileTree.Went blockedTree (moveToHistory ⟨""⟩ unblockedTree "oak").1
        (spot [] .running artifact "oak") (spot [] .history artifact "oak") := by
  have hreached : Reached ⟨""⟩ blockedTree [] "oak" :=
    ⟨by decide, rfl, fun _ _ p hp => by simp [pathNames, splitSlash, FileTree.visits] at hp⟩
  obtain ⟨_, hmove⟩ := honest_move_iff_no_directory_lacks ⟨""⟩ blockedTree
    (show '/' ∉ "oak".toList by decide)
  obtain ⟨hshifted, _, hlater⟩ := hmove [] hreached
  obtain ⟨hok, hwent⟩ := hlater unblockedTree eased_unblockedTree
  exact ⟨by decide, hshifted, hok, fun artifact => hwent artifact (by cases artifact <;> decide)⟩

/-- A run that has been created and has ended, in a storage whose directory of states has gone. -/
def statelessTree : FileTree where
  entries := [(["running"], .directory), (["history"], .directory),
    (["history", "logs"], .directory),
    (["running", "oak@2023-11-14T22:13:20Z.json"], .file 0 (.text "oak")),
    (["running", "oak@2023-11-14T22:13:20Z.txt"], .file 1 (.text "completed"))]
  nextId := 2

/-- A move without a fault leaves a file behind. -/
theorem state_is_left_without_a_fault :
    statelessTree.Sound ∧
      (moveToHistory ⟨""⟩ statelessTree "oak@2023-11-14T22:13:20Z").2 = .ok () ∧
      (moveToHistory ⟨""⟩ statelessTree "oak@2023-11-14T22:13:20Z").1.get?
        (spot [] .running .state "oak@2023-11-14T22:13:20Z") =
          some (.file 1 (.text "completed")) := by
  decide

end Storage
end DryKiln
