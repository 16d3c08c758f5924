-- Where the files of a run come to lie. The name of a program is a part of the name of its runs,
-- and so a part of paths: without a slash in it, whatever is done for a run happens at the places
-- of its files; with one, a run that is created lies elsewhere, and no listing shows it.
import DryKiln.Program.Admission
import DryKiln.Proofs.Files.Making
import DryKiln.Proofs.Run.Outcome

namespace DryKiln

/-! ## Pieces of a path -/

theorem mem_of_mem_splitSlash {cs piece : List Char} (h : piece ∈ splitSlash cs) {c : Char}
    (hc : c ∈ piece) : c ∈ cs ∧ c ≠ '/' := by
  induction cs generalizing piece with
  | nil =>
    rw [splitSlash, List.mem_singleton] at h
    subst h
    cases hc
  | cons first cs ih =>
    obtain ⟨next, pieces, hsplit⟩ := List.exists_cons_of_ne_nil (splitSlash_ne_nil cs)
    rw [hsplit] at ih
    simp only [splitSlash, hsplit] at h
    split at h
    · rcases List.mem_cons.mp h with rfl | h
      · cases hc
      · exact ⟨List.mem_cons_of_mem _ (ih h hc).1, (ih h hc).2⟩
    · rename_i hslash
      rcases List.mem_cons.mp h with rfl | h
      · rcases List.mem_cons.mp hc with rfl | hc
        · exact ⟨List.mem_cons_self, hslash⟩
        · have hmem := ih List.mem_cons_self hc
          exact ⟨List.mem_cons_of_mem _ hmem.1, hmem.2⟩
      · have hmem := ih (List.mem_cons_of_mem _ h) hc
        exact ⟨List.mem_cons_of_mem _ hmem.1, hmem.2⟩

theorem mem_of_mem_pathNames {path name : String} (h : name ∈ pathNames path) {c : Char}
    (hc : c ∈ name.toList) : c ∈ path.toList ∧ c ≠ '/' := by
  obtain ⟨piece, hpiece, rfl⟩ := List.mem_map.mp h
  rw [String.toList_ofList] at hc
  exact mem_of_mem_splitSlash hpiece hc

namespace FileTree

/-! ## Where names lead -/

/-- The place that names lead to, if all that is on the way is there. -/
def along (place : Path) : List String → Path
  | [] => place
  | name :: names =>
    if name = "" ∨ name = "." then along place names
    else if name = ".." then along place.dropLast names
    else along (place ++ [name]) names

section Places

variable {tree moved : FileTree} {place last : Path} {names : List String} {path : String}

theorem along_of_walk (h : tree.walk place names = .ok last) : along place names = last := by
  induction names generalizing place with
  | nil => exact Except.ok.inj h
  | cons name names ih =>
    rw [walk] at h
    rw [along]
    by_cases hskip : name = "" ∨ name = "."
    · rw [if_pos hskip] at h ⊢
      exact ih h
    by_cases hup : name = ".."
    · rw [if_neg hskip, if_pos hup] at h ⊢
      exact ih h
    rw [if_neg hskip, if_neg hup] at h ⊢
    split at h
    · cases h
    · split at h
      · cases h
      · cases h
      · exact ih h

/-- A path leads to a directory, or to a proper name in a directory. -/
theorem Sound.resolved (h : tree.Sound) (hpath : tree.resolve path = .ok place) :
    tree.get? place = some .directory ∨ ∃ directory name, place = directory ++ [name] ∧
      tree.get? directory = some .directory ∧ ProperName name := by
  unfold resolve at hpath
  split at hpath
  · cases hpath
  rename_i hbad
  unfold placeOf at hpath
  split at hpath
  · exact .inl (Except.ok.inj hpath ▸ tree.get?_nil)
  rename_i name hlast
  by_cases hdots : isDots name = true
  · rw [if_pos hdots] at hpath
    exact .inl (h.directory_of_walk tree.get?_nil hpath)
  rw [if_neg hdots] at hpath
  cases hwalk : tree.walk [] (pathNames path).dropLast with
  | error fault => simp [hwalk, bind, Except.bind] at hpath
  | ok directory =>
    simp only [hwalk, bind, Except.bind] at hpath
    split at hpath
    · cases hpath
    rename_i hshort
    have hmem : name ∈ pathNames path := List.mem_of_getLast? hlast
    refine .inr ⟨directory, name, (Except.ok.inj hpath).symm,
      h.directory_of_walk tree.get?_nil hwalk, ?_, ?_, ?_, ?_⟩
    · exact fun hslash => (mem_of_mem_pathNames hmem hslash).2 rfl
    · simpa using hdots
    · intro hnul
      have hnulPath := (mem_of_mem_pathNames hmem hnul).1
      simp [badText, hnulPath] at hbad
    · simpa using hshort

/-- Wherever a path leads, a file that is created is one new file there. -/
theorem Sound.created (h : tree.Sound) {opened : FileTree × OpenFile}
    (hok : tree.create path = .ok opened) : ∃ directory name,
      opened.2 = ⟨tree.nextId, 0⟩ ∧ Holds tree directory name tree.nextId (.text "") opened.1 ∧
        tree.get? (directory ++ [name]) = none ∧ opened.1.Sound := by
  cases hpath : tree.resolve path with
  | error fault =>
    rw [create_of_error hpath] at hok
    cases hok
  | ok place =>
    have hfree : tree.get? place = none := by
      cases hget : tree.get? place with
      | none => rfl
      | some entry =>
        simp only [create, hpath, hget, bind, Except.bind] at hok
        cases hok
    rcases h.resolved hpath with hdirectory | ⟨directory, name, rfl, hparent, hproper⟩
    · cases hfree.symm.trans hdirectory
    obtain ⟨next, hnext, hholds, hsound⟩ := create_of_free h hpath hparent hproper hfree
    cases hnext.symm.trans hok
    exact ⟨directory, name, rfl, hholds, hfree, hsound⟩

/-! ## What a move leaves alone -/

theorem lookup_rekey_of_not_below {source target p : Path} (hsource : ¬ source <+: p)
    (htarget : ¬ target <+: p) (entries : List (Path × Entry)) :
    (entries.map fun e =>
      if source.isPrefixOf e.1 then (target ++ e.1.drop source.length, e.2) else e).lookup p =
      entries.lookup p := by
  induction entries with
  | nil => rfl
  | cons e rest ih =>
    obtain ⟨key, entry⟩ := e
    rw [List.map_cons]
    by_cases hkey : source <+: key
    · have hp : p ≠ key := by
        rintro rfl
        exact hsource hkey
      have hp' : p ≠ target ++ key.drop source.length := by
        rintro rfl
        exact htarget (List.prefix_append _ _)
      rw [if_pos (List.isPrefixOf_iff_prefix.mpr hkey), lookup_cons_ite, lookup_cons_ite,
        if_neg hp, if_neg hp', ih]
    · rw [if_neg (by simpa using hkey), lookup_cons_ite, lookup_cons_ite, ih]

theorem get?_moveAll_of_not_below {source target p : Path} (hsource : ¬ source <+: p)
    (htarget : ¬ target <+: p) : (tree.moveAll source target).get? p = tree.get? p := by
  by_cases hp : p = []
  · subst hp
    rfl
  · rw [get?_of_ne_nil _ hp, get?_of_ne_nil _ hp, moveAll,
      lookup_rekey_of_not_below hsource htarget]

theorem get?_moveFile_of_not_below {source target p : Path} (hnil : target ≠ [])
    (hsource : ¬ source <+: p) (htarget : ¬ target <+: p) :
    (tree.moveFile source target).get? p = tree.get? p := by
  rw [moveFile, get?_moveAll_of_not_below hsource htarget, get?_erase tree hnil,
    if_neg (by simpa using htarget)]

/-- The place of the last name of a path, found by its names alone. -/
def lastPlace (path : String) : Path :=
  along [] (pathNames path).dropLast ++ [(pathNames path).getLastD ""]

/-- What a move that succeeds has done. -/
theorem moved_of_rename {oldPath newPath : String} (hok : tree.rename oldPath newPath = .ok moved) :
    moved = tree ∨ moved = tree.moveAll (lastPlace oldPath) (lastPlace newPath) ∨
      moved = tree.moveFile (lastPlace oldPath) (lastPlace newPath) := by
  unfold rename at hok
  simp only [bind, Except.bind, pure, Except.pure] at hok
  split at hok
  · cases hok
  split at hok
  · cases hok
  split at hok
  · cases hok
  rename_i oldParent holdWalk
  split at hok
  · cases hok
  rename_i newParent hnewWalk
  rw [lastPlace, lastPlace, along_of_walk holdWalk, along_of_walk hnewWalk]
  split at hok
  · cases hok
  split at hok
  · cases hok
  split at hok
  · cases hok
  split at hok
  · cases hok
  split at hok
  · exact .inl (Except.ok.inj hok).symm
  split at hok
  · cases hok
  split at hok
  · exact .inr (.inl (Except.ok.inj hok).symm)
  · exact .inr (.inr (Except.ok.inj hok).symm)
  · cases hok
  · cases hok
  split at hok
  · exact .inr (.inr (Except.ok.inj hok).symm)
  · cases hok

end Places

end FileTree

namespace Storage

/-! ## The places of a run -/

/-- Nothing is different but at the places of the files of a run. -/
def Within (base : Path) (run : String) (tree next : FileTree) : Prop :=
  ∀ p, next.get? p ≠ tree.get? p → ∃ shelf artifact, p = spot base shelf artifact run

/-- Nothing is different but at the places of the files of a run, and below them if directories are
there. -/
def Confined (base : Path) (run : String) (tree next : FileTree) : Prop :=
  ∀ p, next.get? p ≠ tree.get? p → ∃ shelf artifact, spot base shelf artifact run <+: p

section Confinement

variable {storage : Storage} {tree middle next : FileTree} {base : Path} {run : String}

theorem Within.refl (base : Path) (run : String) (tree : FileTree) : Within base run tree tree :=
  fun _ hne => absurd rfl hne

theorem Confined.refl (base : Path) (run : String) (tree : FileTree) :
    Confined base run tree tree :=
  fun _ hne => absurd rfl hne

theorem Confined.trans (h₁ : Confined base run tree middle) (h₂ : Confined base run middle next) :
    Confined base run tree next := by
  intro p hne
  by_cases hmiddle : middle.get? p = tree.get? p
  · exact h₂ p (by rwa [hmiddle])
  · exact h₁ p hmiddle

theorem within_of_holds {artifact : Artifact} {id : Nat} {contents : Contents}
    (h : FileTree.Holds tree (base ++ ["running"]) (artifact.fileName run) id contents next) :
    Within base run tree next := by
  intro p hne
  refine ⟨.running, artifact, ?_⟩
  by_contra hp
  exact hne (h.elsewhere hp)

theorem Gone.within {artifacts : List Artifact} (h : Gone tree next base run artifacts) :
    Within base run tree next := by
  intro p hne
  by_contra hp
  refine hne (h.elsewhere p fun artifact _ shelf heq => hp ⟨shelf, artifact, heq⟩)

/-- What is written to a log of a run stays within the run. -/
theorem Within.write (h : Within base run tree next) {artifact : Artifact} {file : OpenFile}
    {contents : Contents} (hs : next.Sound)
    (hfile : next.get? (spot base .running artifact run) = some (.file file.id contents))
    (text : String) : Within base run tree (next.tryWrite file text).1 := by
  intro p hne
  by_cases hp : p = spot base .running artifact run
  · exact ⟨_, _, hp⟩
  refine h p ?_
  rwa [FileTree.get?_tryWrite_of_ne] at hne
  exact fun c hc => hp (hs.identified _ _ _ _ _ hc hfile)

/-- Writes texts to an open file, one after the other, and passes faults over. -/
def writeEach (opened : FileTree × OpenFile) (texts : List String) : FileTree × OpenFile :=
  texts.foldl (fun (tree, file) text => tree.tryWrite file text) opened

theorem Within.writeEach (h : Within base run tree next) {artifact : Artifact}
    {contents : Contents} (hs : next.Sound) (texts : List String) (file : OpenFile)
    (hfile : next.get? (spot base .running artifact run) = some (.file file.id contents)) :
    Within base run tree (Storage.writeEach (next, file) texts).1 := by
  induction texts generalizing next file contents with
  | nil => exact h
  | cons text texts ih =>
    obtain ⟨_, hstill⟩ := FileTree.get?_tryWrite_of_file hfile file text
    rw [← FileTree.tryWrite_id next file text] at hstill
    exact ih (h.write hs hfile text) (hs.steady_tryWrite file text).sound _ hstill

/-! ## Moves -/

theorem Laid.lastPlace_file (h : Laid storage tree base) (hrun : '/' ∉ run.toList) (shelf : Shelf)
    (artifact : Artifact) :
    FileTree.lastPlace (storage.file shelf artifact run) = spot base shelf artifact run := by
  obtain ⟨names, hnames, hsame⟩ := storage.names_file tree hrun shelf artifact
  have hwalk := hsame.trans (h.walk_directory shelf artifact)
  rw [FileTree.lastPlace, hnames, List.dropLast_concat, List.getLastD_concat,
    FileTree.along_of_walk hwalk]
  rfl

/-- The places are known by names alone, so it does not matter what has become of the tree. -/
theorem Laid.confined_archive (h : Laid storage tree base) (hrun : '/' ∉ run.toList)
    (artifact : Artifact) : Confined base run middle (storage.archive middle run artifact).1 := by
  rw [archive_eq]
  cases hrename : middle.rename (storage.file .running artifact run)
      (storage.file .history artifact run) with
  | error fault => cases fault <;> exact Confined.refl base run middle
  | ok moved =>
    intro p hne
    by_contra hnot
    have hbelow : ∀ shelf, ¬ spot base shelf artifact run <+: p :=
      fun shelf hstarts => hnot ⟨shelf, artifact, hstarts⟩
    have hmoved := FileTree.moved_of_rename hrename
    rw [h.lastPlace_file hrun, h.lastPlace_file hrun] at hmoved
    refine hne ?_
    rcases hmoved with rfl | rfl | rfl
    · rfl
    · exact FileTree.get?_moveAll_of_not_below (hbelow .running) (hbelow .history)
    · exact FileTree.get?_moveFile_of_not_below (by simp [spot]) (hbelow .running) (hbelow .history)

theorem Laid.confined_archiveEach (h : Laid storage tree base) (hrun : '/' ∉ run.toList)
    (artifacts : List Artifact) (fault : Option FileFault) :
    Confined base run middle (storage.archiveEach run (middle, fault) artifacts).1 := by
  induction artifacts generalizing middle fault with
  | nil => exact Confined.refl base run middle
  | cons artifact rest ih => exact (h.confined_archive hrun artifact).trans (ih _)

/-! ## Runs that are created -/

theorem Laid.there_of_createRun (h : Laid storage tree base) {program : Program}
    (hok : storage.createRun tree run program = .ok next) : Laid storage next base ∧
      ∃ place entry, tree.get? place = none ∧ next.get? place = some entry := by
  obtain ⟨opened, _, hcreate, hwrite, rfl⟩ := created_of_ok hok
  obtain ⟨-, rfl⟩ := FileTree.overwrite_of_write hwrite
  obtain ⟨directory, name, hfile, hholds, hfree, hsound⟩ := h.sound.created hcreate
  have hthere := (hholds.overwrite h.sound (programText program)).here
  rw [← hfile] at hthere
  exact ⟨h.congr ((hholds.steady hsound).trans (hsound.steady_alter _ _)), _, _, hfree, hthere⟩

/-- A file cannot lie at the places of a run whose name has a slash. -/
theorem Laid.not_confined (h : Laid storage tree base) (hslash : '/' ∈ run.toList)
    {program : Program} (hok : storage.createRun tree run program = .ok next) :
    ¬ Confined base run tree next := by
  obtain ⟨hlaid, place, entry, hfree, hthere⟩ := h.there_of_createRun hok
  intro hconfined
  obtain ⟨shelf, artifact, rest, rfl⟩ := hconfined place (by simp [hfree, hthere])
  have hspot : ∃ other, next.get? (spot base shelf artifact run) = some other := by
    by_cases hrest : rest = []
    · rw [hrest, List.append_nil] at hthere
      exact ⟨entry, hthere⟩
    · exact ⟨_, hlaid.sound.directory_of_below hrest hthere⟩
  obtain ⟨other, hother⟩ := hspot
  exact slash_not_mem_of_get? hlaid.sound hother hslash

theorem Laid.listed_iff (h : Laid storage tree base) (hempty : run ≠ "") {program : Program}
    (hok : storage.createRun tree run program = .ok next) :
    (∃ runs, storage.listRunning next = .ok runs ∧ run ∈ runs) ↔ '/' ∉ run.toList := by
  have hlaid := (h.there_of_createRun hok).1
  constructor
  · rintro ⟨runs, hruns, hmem⟩
    have hlists : Lists storage next base .running runs := hlaid.lists_of_ok hruns
    exact slash_not_mem_of_lists hlaid.sound hlists run hmem
  · intro hslash
    obtain ⟨hfits, _⟩ := (h.createRun_ok_iff hslash program).mp ⟨next, hok⟩
    obtain ⟨_, hholds, _⟩ := h.createRun_of_ok hslash hok
    obtain ⟨runs, hruns, hlists⟩ := hlaid.runsIn_eq (badText_directory_of_fits hslash hfits)
    exact ⟨runs, hruns, (hlists.mem_iff run).mpr ⟨⟨hempty, _, _, hholds.here⟩, hfits⟩⟩

theorem slash_mem_runName_iff (program : String) (started : Int) :
    '/' ∉ (runName program started).toList ↔ '/' ∉ program.toList := by
  refine ⟨fun h hmem => h ?_, fun h => slash_not_mem_runName h started⟩
  rw [runName_toList]
  exact List.mem_append_left _ hmem

/-- A program without a slash in its name has all its files at the places of its run, whatever is
done for it. If the name has a slash, a run that is created lies elsewhere and is not listed. -/
theorem confined_exactly_without_slash (h : Laid storage tree base) (program : Program)
    (started : Int) :
    let run := runName program.name started
    ('/' ∉ program.name.toList →
      Within base run tree (.after (storage.createRun tree run program)) ∧
      (∀ state, Within base run tree (.after (storage.updateState tree run state))) ∧
      (∀ next log, storage.openLog tree run = .ok (next, log) → ∀ texts,
        Within base run tree (writeEach (next, log) texts).1) ∧
      Confined base run tree (storage.moveToHistory tree run).1 ∧
      ((∀ artifact, tree.get? (spot base .running artifact run) ≠ some .directory) →
        Within base run tree (storage.moveToHistory tree run).1)) ∧
    ∀ next, storage.createRun tree run program = .ok next →
      (Confined base run tree next ↔ '/' ∉ program.name.toList) ∧
      ((∃ runs, storage.listRunning next = .ok runs ∧ run ∈ runs) ↔
        '/' ∉ program.name.toList) := by
  intro run
  have hrun := slash_mem_runName_iff program.name started
  refine ⟨fun hname => ?_, fun next hok => ⟨?_, ?_⟩⟩
  · have hslash : '/' ∉ run.toList := hrun.mpr hname
    refine ⟨?_, fun state => ?_, ?_, h.confined_archiveEach hslash Artifact.all none, ?_⟩
    · rcases h.after_createRun hslash program with hsame | ⟨_, hholds, _⟩
      · rw [hsame]
        exact .refl base run tree
      · exact within_of_holds hholds
    · rcases h.after_updateState hslash state with hsame | ⟨_, _, hholds, _⟩
      · rw [hsame]
        exact .refl base run tree
      · exact within_of_holds hholds
    · intro next log hok texts
      obtain ⟨hholds, _, hsound⟩ := h.openLog_of_ok hslash hok
      exact (within_of_holds hholds).writeEach hsound texts log hholds.here
    · intro hplain
      exact (h.moveToHistory hslash hplain).1.within
  · rw [← hrun]
    constructor
    · intro hconfined hslash
      exact h.not_confined hslash hok hconfined
    · intro hslash p hne
      obtain ⟨shelf, artifact, rfl⟩ := within_of_holds (h.createRun_of_ok hslash hok).2.1 p hne
      exact ⟨shelf, artifact, List.prefix_refl _⟩
  · rw [← hrun]
    exact h.listed_iff (runName_ne_empty program.name started) hok

end Confinement

/-- A program that can be run, of this name. -/
def coolingOf (name : String) : Program where
  name := name
  steps := [⟨"down", .cooling, none, none, ⟨some .off, some .off, some .off⟩⟩]
  maxRuntime := none

/-- The program of an oak run is at its place, and the run is listed. -/
theorem oak_is_confined :
    let run := runName (coolingOf "oak").name 1700000000
    (coolingOf "oak").check = .ok () ∧
      ∃ next, createRun ⟨""⟩ bareTree run (coolingOf "oak") = .ok next ∧
        Confined [] run bareTree next ∧ ∃ runs, listRunning ⟨""⟩ next = .ok runs ∧ run ∈ runs := by
  intro run
  have hslash : '/' ∉ (coolingOf "oak").name.toList := by decide
  obtain ⟨next, hnext⟩ : ∃ next, createRun ⟨""⟩ bareTree run (coolingOf "oak") = .ok next := by
    refine (laid_bareTree.createRun_ok_iff (slash_not_mem_runName hslash _) _).mpr ⟨?_, ?_, ?_⟩
    · decide
    · decide
    · decide
  obtain ⟨hconfined, hlisted⟩ :=
    (confined_exactly_without_slash laid_bareTree (coolingOf "oak") 1700000000).2 next hnext
  exact ⟨by decide +kernel, next, hnext, hconfined.mpr hslash, hlisted.mpr hslash⟩

/-- A program whose name leads upwards is accepted. Its run is created in the base directory, and
with the runs that are going on there is none. -/
theorem name_that_leads_upwards_escapes :
    let program := coolingOf "../oak"
    let run := runName program.name 1700000000
    program.check = .ok () ∧
      (createRun ⟨""⟩ bareTree run program).map (fun next =>
        (next.get? ["oak@2023-11-14T22:13:20Z.json"], listRunning ⟨""⟩ next)) =
          .ok (some (.file 0 (.text (programText program))), .ok []) := by
  decide +kernel

end Storage
end DryKiln
