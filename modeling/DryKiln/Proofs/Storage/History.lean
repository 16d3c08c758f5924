-- What becomes of a file in the history. Nothing takes it away, and nothing changes it but what
-- is written to its own log, until a run of the same name goes into the history: then the file of
-- that run takes its place. A name in the history is free to be used again.
import DryKiln.Proofs.Storage.Sweep

namespace DryKiln
namespace Storage

-- what these do to one file is known by their laws, and nothing here looks into them
attribute [local irreducible] createRun updateState openLog archive moveToHistory

/-! ## Sequences of calls -/

/-- A call of the storage, or a write to a log that has been opened. -/
inductive StorageCall where
  | create (run : String) (program : Program)
  | store (run : String) (state : RunState)
  | openLog (run : String)
  | write (log : Nat) (text : String)
  | archive (run : String)
  | sweep

/-- The run that a call names has no slash in its name. -/
def StorageCall.Slashless : StorageCall → Prop
  | .create run _ | .store run _ | .openLog run | .archive run => '/' ∉ run.toList
  | .write _ _ | .sweep => True

/-- A tree of files and the logs that have been opened in it. -/
structure Desk where
  tree : FileTree
  logs : List OpenFile

namespace Desk

/-- What a call makes of a desk. A call with a fault may still have done a part of its work. -/
def after (storage : Storage) (desk : Desk) : StorageCall → Desk
  | .create run program =>
    { desk with tree := FileTree.after (storage.createRun desk.tree run program) }
  | .store run state =>
    { desk with tree := FileTree.after (storage.updateState desk.tree run state) }
  | .openLog run =>
    match storage.openLog desk.tree run with
    | .ok (tree, file) => ⟨tree, desk.logs ++ [file]⟩
    | .error _ => desk
  | .write log text =>
    match desk.logs[log]? with
    | some file =>
      let (tree, file) := desk.tree.tryWrite file text
      ⟨tree, desk.logs.set log file⟩
    | none => desk
  | .archive run => { desk with tree := (storage.moveToHistory desk.tree run).1 }
  | .sweep => { desk with tree := (storage.sweep desk.tree).1 }

def afterAll (storage : Storage) (desk : Desk) (calls : List StorageCall) : Desk :=
  calls.foldl (after storage) desk

/-- The call writes to this file. -/
def Writes (desk : Desk) (id : Nat) : StorageCall → Prop
  | .write log _ => ∃ file, desk.logs[log]? = some file ∧ file.id = id
  | _ => False

end Desk

/-- The runs that a sweep gets to: it stops at the first that cannot be moved whole. -/
def reached (storage : Storage) : List String → List String
  | [] => []
  | run :: runs => run :: if Artifact.all.all (storage.takes run) then storage.reached runs else []

/-- A sweep that gets to a run moves each file of it that is there, and gives it a state before. -/
def Moves (storage : Storage) (base : Path) (tree : FileTree) (artifact : Artifact)
    (run : String) : Prop :=
  storage.takes run artifact = true ∧
    (artifact = .state ∨ tree.get? (spot base .running artifact run) ≠ none)

/-- A call moves this file of this run over the one in the history. -/
def Replaces (storage : Storage) (base : Path) (tree : FileTree) (artifact : Artifact)
    (run : String) : StorageCall → Prop
  | .archive other => other = run ∧ storage.takes run artifact = true ∧
      tree.get? (spot base .running artifact run) ≠ none
  | .sweep => ∃ runs, storage.listRunning tree = .ok runs ∧ run ∈ storage.reached runs ∧
      Moves storage base tree artifact run
  | _ => False

section History

variable {storage : Storage} {tree middle next : FileTree} {base : Path} {run : String}
  {artifact : Artifact} {id : Nat} {contents : Contents}

/-! ## One move -/

/-- The file that was at a place in the history is nowhere any more, and another is there. -/
def Lost (next : FileTree) (place : Path) (id : Nat) : Prop :=
  (∃ other c, next.get? place = some (.file other c)) ∧ ∀ p c, next.get? p ≠ some (.file id c)

theorem Gone.history_eq {done : List Artifact} {other : String}
    (h : Gone tree next base other done) (hkeep : other ≠ run ∨ artifact ∉ done ∨
      tree.get? (spot base .running artifact run) = none) :
    next.get? (spot base .history artifact run) = tree.get? (spot base .history artifact run) := by
  by_cases hother : other = run
  · subst hother
    by_cases hmem : artifact ∈ done
    · have hnone : tree.get? (spot base .running artifact other) = none := by
        simpa [hmem] using hkeep
      rw [h.history artifact hmem, hnone]
      rfl
    · refine h.elsewhere _ fun a ha shelf => spot_ne_of_artifact ?_ _ _ _ _
      rintro rfl
      exact hmem ha
  · exact h.elsewhere _ fun a _ shelf => spot_ne_of_run (Ne.symm hother) _ _ _ _

theorem Gone.lost {done : List Artifact} (h : Gone tree next base run done) (hs : tree.Sound)
    (hmem : artifact ∈ done) (hrunning : ∃ other c,
      tree.get? (spot base .running artifact run) = some (.file other c))
    (there : tree.get? (spot base .history artifact run) = some (.file id contents)) :
    Lost next (spot base .history artifact run) id := by
  obtain ⟨other, d, hrunning⟩ := hrunning
  have hnew : next.get? (spot base .history artifact run) = some (.file other d) := by
    rw [h.history artifact hmem, hrunning]
    rfl
  refine ⟨⟨other, d, hnew⟩, fun p c hget => ?_⟩
  -- wherever the file were now, it would have come from a second place
  have honly : ∀ q c, tree.get? q = some (.file id c) → q = spot base .history artifact run :=
    fun q c hq => hs.identified _ _ _ _ _ hq there
  by_cases hp : ∀ a ∈ done, ∀ shelf, p ≠ spot base shelf a run
  · rw [h.elsewhere p hp] at hget
    exact hp artifact hmem .history (honly p c hget)
  · simp only [not_forall, Decidable.not_not] at hp
    obtain ⟨a, ha, shelf, rfl⟩ := hp
    cases shelf with
    | running =>
      rw [h.running a ha] at hget
      cases hget
    | history =>
      rw [h.history a ha, Option.or_eq_some_iff] at hget
      rcases hget with hget | ⟨hnone, hget⟩
      · exact running_ne_history base a artifact run run (honly _ c hget)
      · obtain ⟨_, rfl, _⟩ := spot_inj (honly _ c hget)
        rw [hrunning] at hnone
        cases hnone

/-- What becomes of a file in the history from one tree to a later one: it is at its place and holds
what it held unless it has been written, or another file has been moved over it. -/
structure Fate (tree next : FileTree) (place : Path) (id : Nat) (contents : Contents)
    (replaced written : Prop) : Prop where
  steady : FileTree.Steady tree next
  kept : ¬ replaced → ∃ c, next.get? place = some (.file id c) ∧ (¬ written → c = contents)
  lost : replaced → Lost next place id

section Fates

variable {place : Path} {replaced replaced' written written' : Prop}

theorem Fate.there (h : Fate tree next place id contents replaced written) :
    ∃ other c, next.get? place = some (.file other c) := by
  by_cases hreplaced : replaced
  · exact (h.lost hreplaced).1
  · obtain ⟨c, hc, _⟩ := h.kept hreplaced
    exact ⟨id, c, hc⟩

theorem fate_of_same (hsteady : FileTree.Steady tree next) (hnot : ¬ replaced)
    (there : next.get? place = some (.file id contents)) :
    Fate tree next place id contents replaced written :=
  ⟨hsteady, fun _ => ⟨contents, there, fun _ => rfl⟩, fun h => absurd h hnot⟩

theorem Fate.congr (h : Fate tree next place id contents replaced written)
    (hreplaced : replaced' ↔ replaced) (hwritten : written → written') :
    Fate tree next place id contents replaced' written' := by
  refine ⟨h.steady, fun hnot => ?_, fun hmoved => h.lost (hreplaced.mp hmoved)⟩
  obtain ⟨c, hc, hsame⟩ := h.kept fun hmoved => hnot (hreplaced.mpr hmoved)
  exact ⟨c, hc, fun hnone => hsame fun hw => hnone (hwritten hw)⟩

/-- A file that has been replaced does not come back. -/
theorem Fate.trans {later : Nat → Prop}
    (h₁ : Fate tree middle place id contents replaced written) (hid : id < middle.nextId)
    (h₂ : ∀ other c, middle.get? place = some (.file other c) →
      Fate middle next place other c replaced' (later other)) :
    Fate tree next place id contents (replaced ∨ replaced') (written ∨ later id) := by
  obtain ⟨other, c, hother⟩ := h₁.there
  have hlast := h₂ other c hother
  refine ⟨h₁.steady.trans hlast.steady, fun hnot => ?_, fun hmoved => ?_⟩
  · obtain ⟨hfirst, hsecond⟩ := not_or.mp hnot
    obtain ⟨c, hc, hsame⟩ := h₁.kept hfirst
    obtain ⟨d, hd, hsame'⟩ := (h₂ id c hc).kept hsecond
    exact ⟨d, hd, fun hnone =>
      (hsame' fun hw => hnone (.inr hw)).trans (hsame fun hw => hnone (.inl hw))⟩
  · by_cases hfirst : replaced
    · exact ⟨hlast.there, hlast.steady.absent hid (h₁.lost hfirst).2⟩
    · obtain ⟨c, hc, _⟩ := h₁.kept hfirst
      exact (h₂ id c hc).lost (hmoved.resolve_left hfirst)

end Fates

/-! ## A sweep -/

theorem all_takes_iff (storage : Storage) (run : String) :
    Artifact.all.all (storage.takes run) = true ↔ Fits storage run := by
  rw [List.all_eq_true, fits_iff]
  exact ⟨fun h artifact => h artifact artifact.mem_all, fun h artifact _ => h artifact⟩

/-- One run of a sweep. -/
def canceled (storage : Storage) (tree : FileTree) (run : String) : FileTree :=
  (storage.moveToHistory (storage.mark tree run) run).1

theorem Tidy.cancelAll_cons (h : Tidy storage tree base) (hrun : '/' ∉ run.toList)
    (rest : List String) : (storage.cancelAll tree (run :: rest)).1 =
      if Artifact.all.all (storage.takes run) then
        (storage.cancelAll (storage.canceled tree run) rest).1
      else storage.canceled tree run := by
  have hok := (h.congr (h.mark hrun).1).moveToHistory_ok_iff hrun
  rw [← all_takes_iff] at hok
  rw [Storage.cancelAll_cons, canceled]
  cases hmoved : storage.moveToHistory (storage.mark tree run) run with
  | mk moved result =>
    rw [hmoved] at hok
    cases result with
    | ok => simp [hok.mp rfl]
    | error fault =>
      have hnot : ¬ Artifact.all.all (storage.takes run) = true := fun hall => nomatch hok.mpr hall
      simp [hnot]

theorem Tidy.gone_canceled (h : Tidy storage tree base) (hrun : '/' ∉ run.toList) :
    Gone (storage.mark tree run) (storage.canceled tree run) base run
        (Artifact.all.filter (storage.takes run)) ∧
      FileTree.Steady tree (storage.canceled tree run) := by
  have hmarked := h.congr (h.mark hrun).1
  obtain ⟨hgone, hsteady, _⟩ := hmarked.laid.moveToHistory hrun fun artifact => hmarked.plain _ _ _
  rw [List.filter_congr fun artifact _ => hmarked.movable_eq run artifact] at hgone
  exact ⟨hgone, (h.mark hrun).1.trans hsteady⟩

/-- One run of a sweep leaves the files of every other run alone. -/
theorem Tidy.canceled_of_ne (h : Tidy storage tree base) {other : String}
    (hother : '/' ∉ other.toList) (hne : run ≠ other) (shelf : Shelf) (artifact : Artifact) :
    (storage.canceled tree other).get? (spot base shelf artifact run) =
      tree.get? (spot base shelf artifact run) := by
  rw [(h.gone_canceled hother).1.elsewhere _ fun a _ shelf' => spot_ne_of_run hne _ _ _ _]
  exact (h.mark hother).2 _ (spot_ne_of_run hne _ _ _ _)

theorem Tidy.file_of_ne_none (h : Tidy storage tree base) {shelf : Shelf}
    (hget : tree.get? (spot base shelf artifact run) ≠ none) :
    ∃ other c, tree.get? (spot base shelf artifact run) = some (.file other c) := by
  cases hentry : tree.get? (spot base shelf artifact run) with
  | none => exact absurd hentry hget
  | some entry =>
    cases entry with
    | directory => exact absurd hentry (h.plain _ _ _)
    | file other c => exact ⟨other, c, rfl⟩

theorem Tidy.canceled_of_not_moves (h : Tidy storage tree base) (hrun : '/' ∉ run.toList)
    (hnot : ¬ Moves storage base tree artifact run) :
    (storage.canceled tree run).get? (spot base .history artifact run) =
      tree.get? (spot base .history artifact run) := by
  obtain ⟨_, hmark⟩ := h.mark hrun
  have hhistory := hmark _ (running_ne_history base .state artifact run run).symm
  rw [← hhistory]
  refine (h.gone_canceled hrun).1.history_eq (.inr ?_)
  by_cases htakes : storage.takes run artifact = true
  · have hnone : artifact ≠ .state ∧ tree.get? (spot base .running artifact run) = none := by
      simpa [Moves, htakes] using hnot
    exact .inr ((hmark _ (spot_ne_of_artifact hnone.1 _ _ _ _)).trans hnone.2)
  · exact .inl fun hmem => htakes (List.mem_filter.mp hmem).2

theorem Tidy.canceled_of_moves (h : Tidy storage tree base) (hrun : '/' ∉ run.toList)
    (hmoves : Moves storage base tree artifact run)
    (there : tree.get? (spot base .history artifact run) = some (.file id contents)) :
    Lost (storage.canceled tree run) (spot base .history artifact run) id := by
  obtain ⟨htakes, hfile⟩ := hmoves
  obtain ⟨hsteady, hmark⟩ := h.mark hrun
  have hmarked := h.congr hsteady
  have hhistory := hmark _ (running_ne_history base .state artifact run run).symm
  have hrunning : (storage.mark tree run).get? (spot base .running artifact run) ≠ none := by
    by_cases hstate : artifact = .state
    · subst hstate
      obtain ⟨_, _, _, hhere⟩ :=
        h.laid.mark_of_fits hrun (h.plainAt run) ((storage.takes_iff run .state).mp htakes .running)
      intro hnone
      cases hhere.symm.trans hnone
    · rw [hmark _ (spot_ne_of_artifact hstate _ _ _ _)]
      exact hfile.resolve_left hstate
  exact (h.gone_canceled hrun).1.lost hmarked.laid.sound
    (List.mem_filter.mpr ⟨artifact.mem_all, htakes⟩) (hmarked.file_of_ne_none hrunning)
    (hhistory.trans there)

theorem mem_of_mem_reached {runs : List String} (h : run ∈ storage.reached runs) : run ∈ runs := by
  induction runs with
  | nil => exact h
  | cons first rest ih =>
    rw [reached, List.mem_cons] at h
    rcases h with rfl | h
    · exact List.mem_cons_self
    · split at h
      · exact List.mem_cons_of_mem _ (ih h)
      · cases h

theorem Tidy.canceled_fate (h : Tidy storage tree base) {first : String}
    (hfirst : '/' ∉ first.toList)
    (there : tree.get? (spot base .history artifact run) = some (.file id contents)) :
    Fate tree (storage.canceled tree first) (spot base .history artifact run) id contents
      (first = run ∧ Moves storage base tree artifact run) False := by
  have hsteady := (h.gone_canceled hfirst).2
  by_cases hrun : first = run
  · subst hrun
    by_cases hmoves : Moves storage base tree artifact first
    · exact ⟨hsteady, fun hnot => absurd ⟨rfl, hmoves⟩ hnot,
        fun _ => h.canceled_of_moves hfirst hmoves there⟩
    · exact fate_of_same hsteady (fun hmoved => hmoves hmoved.2)
        ((h.canceled_of_not_moves hfirst hmoves).trans there)
  · exact fate_of_same hsteady (fun hmoved => hrun hmoved.1)
      ((h.canceled_of_ne hfirst (Ne.symm hrun) .history artifact).trans there)

theorem Tidy.cancelAll_fate (h : Tidy storage tree base) {runs : List String} (hnodup : runs.Nodup)
    (hruns : ∀ run ∈ runs, '/' ∉ run.toList)
    (there : tree.get? (spot base .history artifact run) = some (.file id contents)) :
    Fate tree (storage.cancelAll tree runs).1 (spot base .history artifact run) id contents
      (run ∈ storage.reached runs ∧ Moves storage base tree artifact run) False := by
  induction runs generalizing tree id contents with
  | nil => exact fate_of_same h.laid.sound.steady (fun hmoves => nomatch hmoves.1) there
  | cons first rest ih =>
    obtain ⟨hnew, hrest⟩ := List.nodup_cons.mp hnodup
    obtain ⟨hfirst, hlater⟩ := List.forall_mem_cons.mp hruns
    have hone := h.canceled_fate hfirst there
    have htidy := h.congr hone.steady
    have hid := Nat.lt_of_lt_of_le (h.laid.sound.numbered _ _ _ there) hone.steady.nextId_le
    rw [h.cancelAll_cons hfirst, reached]
    split
    · have hall := hone.trans hid fun other c hother => ih htidy hrest hlater hother
      refine hall.congr ?_ (by simp)
      by_cases hrun : first = run
      · subst hrun
        have hunreached : first ∉ storage.reached rest :=
          fun hmem => hnew (mem_of_mem_reached hmem)
        simp [hunreached]
      · -- the sweep comes to this run with its files as they were
        have hsame := h.canceled_of_ne hfirst (Ne.symm hrun) .running artifact
        simp [Moves, hsame, hrun, Ne.symm hrun]
    · exact hone.congr (by simp [eq_comm]) fun h => h

/-! ## One call -/

theorem fate_of_holds {replaced written : Prop} {other : Artifact} {name : String} {new : Nat}
    {held : Contents}
    (hholds : FileTree.Holds tree (base ++ ["running"]) (other.fileName name) new held next)
    (hs : next.Sound) (hnot : ¬ replaced)
    (there : tree.get? (spot base .history artifact run) = some (.file id contents)) :
    Fate tree next (spot base .history artifact run) id contents replaced written :=
  fate_of_same (hholds.steady hs) hnot
    ((hholds.elsewhere (running_ne_history base other artifact name run).symm).trans there)

theorem fate_of_write (hs : tree.Sound) {file : OpenFile} {text : String} {replaced written : Prop}
    (hnot : ¬ replaced) (hwritten : file.id = id → written)
    (there : tree.get? (spot base .history artifact run) = some (.file id contents)) :
    Fate tree (tree.tryWrite file text).1 (spot base .history artifact run) id contents replaced
      written := by
  refine ⟨hs.steady_tryWrite file text, fun _ => ?_, fun hreplaced => absurd hreplaced hnot⟩
  obtain ⟨c, hc⟩ := FileTree.get?_tryWrite_of_file there file text
  refine ⟨c, hc, fun hother => ?_⟩
  have hsame : (tree.tryWrite file text).1.get? (spot base .history artifact run) =
      tree.get? (spot base .history artifact run) := by
    refine FileTree.get?_tryWrite_of_ne fun d hd => hother (hwritten ?_)
    cases there.symm.trans hd
    rfl
  cases hc.symm.trans (hsame.trans there)
  rfl

theorem Tidy.archive_fate (h : Tidy storage tree base) {name : String} (hname : '/' ∉ name.toList)
    {written : Prop}
    (there : tree.get? (spot base .history artifact run) = some (.file id contents)) :
    Fate tree (storage.moveToHistory tree name).1 (spot base .history artifact run) id contents
      (Replaces storage base tree artifact run (.archive name)) written := by
  obtain ⟨hgone, hsteady, _⟩ := h.laid.moveToHistory hname fun a => h.plain _ _ _
  rw [List.filter_congr fun a _ => h.movable_eq name a] at hgone
  refine ⟨hsteady, fun hnot => ⟨contents, ?_, fun _ => rfl⟩, ?_⟩
  · refine (hgone.history_eq ?_).trans there
    by_cases hrun : name = run
    · subst hrun
      by_cases htakes : storage.takes name artifact = true
      · exact .inr (.inr (by simpa [Replaces, htakes] using hnot))
      · exact .inr (.inl fun hmem => htakes (List.mem_filter.mp hmem).2)
    · exact .inl hrun
  · rintro ⟨rfl, htakes, hrunning⟩
    exact hgone.lost h.laid.sound (List.mem_filter.mpr ⟨artifact.mem_all, htakes⟩)
      (h.file_of_ne_none hrunning) there

theorem Tidy.sweep_fate (h : Tidy storage tree base) {written : Prop}
    (there : tree.get? (spot base .history artifact run) = some (.file id contents)) :
    Fate tree (storage.sweep tree).1 (spot base .history artifact run) id contents
      (Replaces storage base tree artifact run .sweep) written := by
  cases hlist : storage.listRunning tree with
  | error fault =>
    rw [sweep_of_error hlist]
    exact fate_of_same h.laid.sound.steady (by simp [Replaces, hlist]) there
  | ok runs =>
    have hlists : Lists storage tree base .running runs := h.laid.lists_of_ok hlist
    rw [sweep_of_ok hlist]
    exact (h.cancelAll_fate hlists.nodup (slash_not_mem_of_lists h.laid.sound hlists) there).congr
      (by simp [Replaces, hlist]) False.elim

/-- What a call makes of a file in the history. -/
theorem Tidy.fate {desk : Desk} (h : Tidy storage desk.tree base) {call : StorageCall}
    (hcall : call.Slashless)
    (there : desk.tree.get? (spot base .history artifact run) = some (.file id contents)) :
    Fate desk.tree (desk.after storage call).tree (spot base .history artifact run) id contents
      (Replaces storage base desk.tree artifact run call) (desk.Writes id call) := by
  have hsame := h.laid.sound.steady
  cases call with
  | create name program =>
    rcases h.laid.after_createRun hcall program with heq | ⟨held, hholds, hs⟩
    · simp only [Desk.after, heq]
      exact fate_of_same hsame (fun h => h) there
    · exact fate_of_holds hholds hs (fun h => h) there
  | store name state =>
    rcases h.laid.after_updateState hcall state with heq | ⟨other, held, hholds, hs⟩
    · simp only [Desk.after, heq]
      exact fate_of_same hsame (fun h => h) there
    · exact fate_of_holds hholds hs (fun h => h) there
  | openLog name =>
    cases hresult : storage.openLog desk.tree name with
    | error fault =>
      simp only [Desk.after, hresult]
      exact fate_of_same hsame (fun h => h) there
    | ok opened =>
      obtain ⟨hholds, _, hs⟩ := h.laid.openLog_of_ok hcall hresult
      simp only [Desk.after, hresult]
      exact fate_of_holds hholds hs (fun h => h) there
  | write log text =>
    cases hfile : desk.logs[log]? with
    | none =>
      simp only [Desk.after, hfile]
      exact fate_of_same hsame (fun h => h) there
    | some file =>
      simp only [Desk.after, hfile]
      exact fate_of_write h.laid.sound (fun h => h) (fun heq => ⟨file, hfile, heq⟩) there
  | archive name => exact h.archive_fate hcall there
  | sweep => exact h.sweep_fate there

/-! ## The law -/

/-- No call of a sequence moves this file of this run over the one in the history. -/
def NeverReplaced (storage : Storage) (base : Path) (artifact : Artifact) (run : String) :
    Desk → List StorageCall → Prop
  | _, [] => True
  | desk, call :: rest => ¬ Replaces storage base desk.tree artifact run call ∧
      NeverReplaced storage base artifact run (desk.after storage call) rest

/-- No call of a sequence writes to this file. -/
def NeverWritten (storage : Storage) (id : Nat) : Desk → List StorageCall → Prop
  | _, [] => True
  | desk, call :: rest => ¬ desk.Writes id call ∧
      NeverWritten storage id (desk.after storage call) rest

theorem Tidy.afterAll_fate {desk : Desk} (h : Tidy storage desk.tree base)
    {calls : List StorageCall} (hcalls : ∀ call ∈ calls, call.Slashless)
    (there : desk.tree.get? (spot base .history artifact run) = some (.file id contents)) :
    Fate desk.tree (desk.afterAll storage calls).tree (spot base .history artifact run) id contents
      (¬ NeverReplaced storage base artifact run desk calls)
      (¬ NeverWritten storage id desk calls) := by
  induction calls generalizing desk id contents with
  | nil => exact fate_of_same h.laid.sound.steady (not_not_intro trivial) there
  | cons call rest ih =>
    obtain ⟨hcall, hrest⟩ := List.forall_mem_cons.mp hcalls
    have hone := h.fate hcall there
    have hid := Nat.lt_of_lt_of_le (h.laid.sound.numbered _ _ _ there) hone.steady.nextId_le
    have hall := hone.trans hid fun other c hother => ih (h.congr hone.steady) hrest hother
    refine hall.congr ?_ fun hw => ?_
    · rw [NeverReplaced, not_and_or, not_not]
    · rw [NeverWritten, not_and_or, not_not]
      exact hw

/-- Whatever is done in a tidy storage, where the history has a file it goes on having one. It is
the same file exactly if no run of this name has been moved over it, and if nothing has been written
to it then either, it holds what it held. But a name that the history has is free: a run can be
created again as soon as no program of its name is with the runs that are going on, if the disk
takes its program. -/
theorem history_is_kept_unless_moved_over {desk : Desk} (h : Tidy storage desk.tree base)
    {calls : List StorageCall} (hcalls : ∀ call ∈ calls, call.Slashless)
    (there : desk.tree.get? (spot base .history artifact run) = some (.file id contents)) :
    let left := (desk.afterAll storage calls).tree
    (∃ other c, left.get? (spot base .history artifact run) = some (.file other c)) ∧
      ((∃ c, left.get? (spot base .history artifact run) = some (.file id c)) ↔
        NeverReplaced storage base artifact run desk calls) ∧
      (NeverReplaced storage base artifact run desk calls ∧ NeverWritten storage id desk calls →
        left.get? (spot base .history artifact run) = some (.file id contents)) ∧
      ∀ name program, '/' ∉ name.toList →
        ((∃ next, storage.createRun left name program = .ok next) ↔
          storage.nameFault .running .program name = none ∧
            left.get? (spot base .running .program name) = none ∧
            left.nextId ∉ desk.tree.full) := by
  intro left
  have hfate := h.afterAll_fate hcalls there
  refine ⟨hfate.there, ⟨?_, fun hnever => ?_⟩, ?_, ?_⟩
  · rintro ⟨c, hc⟩
    by_contra hnot
    exact (hfate.lost hnot).2 _ _ hc
  · obtain ⟨c, hc, _⟩ := hfate.kept (not_not_intro hnever)
    exact ⟨c, hc⟩
  · rintro ⟨hnever, hunwritten⟩
    obtain ⟨c, hc, hsame⟩ := hfate.kept (not_not_intro hnever)
    rw [← hsame (not_not_intro hunwritten)]
    exact hc
  · intro name program hname
    rw [← hfate.steady.full_eq]
    exact (h.congr hfate.steady).laid.createRun_ok_iff hname program

end History

/-- A storage with the program of a finished run in the history. -/
def usedTree : FileTree where
  entries := (["history", "oak@2023-11-14T22:13:20Z.json"], .file 0 (.text "oak")) ::
    bareTree.entries
  nextId := 1

/-- While a run of the same name is going on, the program in the history stays what it is. -/
theorem used_program_is_kept :
    let name := "oak@2023-11-14T22:13:20Z"
    let desk : Desk := ⟨usedTree, []⟩
    let calls := [.create name ⟨"oak", [], none⟩, .store name .pending, .openLog name]
    (desk.afterAll ⟨""⟩ calls).tree.get? (spot [] .history .program name) =
      some (.file 0 (.text "oak")) := by
  intro name desk calls
  have htidy : Tidy ⟨""⟩ desk.tree [] := by
    refine Laid.tidy ⟨by decide, rfl, fun shelf artifact => ?_⟩ (by decide)
    cases shelf <;> cases artifact <;> decide
  have hname : '/' ∉ name.toList := by decide
  have hcalls : ∀ call ∈ calls, call.Slashless := by
    simp [calls, StorageCall.Slashless, hname]
  have there : desk.tree.get? (spot [] .history .program name) = some (.file 0 (.text "oak")) := by
    decide
  have hnever : NeverReplaced ⟨""⟩ [] .program name desk calls := by
    simp [calls, NeverReplaced, Replaces]
  have hunwritten : NeverWritten ⟨""⟩ 0 desk calls := by
    simp [calls, NeverWritten, Desk.Writes]
  exact (history_is_kept_unless_moved_over htidy hcalls there).2.2.1 ⟨hnever, hunwritten⟩

/-- A name that has been used is used again, and the program of the first run is gone. -/
theorem used_name_is_used_again :
    let storage : Storage := ⟨""⟩
    let name := "oak@2023-11-14T22:13:20Z"
    let place := spot [] .history .program name
    let first : Program := ⟨"oak", [], none⟩
    let second : Program := { first with maxRuntime := some 60 }
    let finished := (⟨bareTree, []⟩ : Desk).afterAll storage
      [.create name first, .store name .completed, .archive name]
    let again := finished.afterAll storage [.create name second, .archive name]
    finished.tree.get? place = some (.file 0 (.text (programText first))) ∧
      (storage.createRun finished.tree name second).isOk = true ∧
      again.tree.get? place = some (.file 2 (.text (programText second))) ∧
      programText first ≠ programText second := by
  decide +kernel

end Storage
end DryKiln
