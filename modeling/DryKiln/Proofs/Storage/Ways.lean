-- How one file of a run goes into the history. The file system must accept its paths, both
-- directories must be there, and what is in its place must yield; a file that is missing, and a
-- directory of the history that is missing, are no fault.
import DryKiln.Proofs.Storage.Listing

namespace DryKiln
namespace Storage

section Ways

variable {storage : Storage} {tree next : FileTree} {base : Path} {run : String}
  {artifact : Artifact}

/-! ## The way to a shelf -/

/-- A file is where a directory of a shelf should be, or the one above it. -/
def Barred (tree : FileTree) (base : Path) (shelf : Shelf) (artifact : Artifact) : Prop :=
  ∃ id contents, tree.get? (base ++ shelf.names artifact) = some (.file id contents) ∨
    tree.get? (base ++ shelf.names .program) = some (.file id contents)

/-- A directory of a shelf is missing, and no file is in its place. -/
def Lacks (tree : FileTree) (base : Path) (shelf : Shelf) (artifact : Artifact) : Prop :=
  tree.get? (base ++ shelf.names artifact) = none ∧ ¬ Barred tree base shelf artifact

/-- Where the path of a directory of a shelf leads. -/
inductive Way (tree : FileTree) (base : Path) (shelf : Shelf) (artifact : Artifact) :
    Except FileFault Path → Prop where
  | ready (there : tree.get? (base ++ shelf.names artifact) = some .directory) :
      Way tree base shelf artifact (.ok (base ++ shelf.names artifact))
  | missing (lacks : Lacks tree base shelf artifact) :
      Way tree base shelf artifact (.error .notFound)
  | barred (barred : Barred tree base shelf artifact) :
      Way tree base shelf artifact (.error .notDirectory)

theorem way_of_one (hbase : tree.walk [] (pathNames storage.base) = .ok base) {shelf : Shelf}
    {name : String} (hname : FileTree.ProperName name) (hnames : shelf.names artifact = [name])
    (htop : shelf.names .program = [name])
    (hpath : storage.directory shelf artifact = joinPath storage.base name) :
    Way tree base shelf artifact
      (tree.walk [] (pathNames (storage.directory shelf artifact))) := by
  rw [hpath, FileTree.walk_joinPath_eq hbase hname]
  cases hget : tree.get? (base ++ [name]) with
  | none => exact .missing ⟨by rw [hnames, hget], by simp [Barred, hnames, htop, hget]⟩
  | some entry =>
    cases entry with
    | file id contents => exact .barred ⟨id, contents, .inl (by rw [hnames, hget])⟩
    | directory =>
      rw [← hnames] at hget ⊢
      exact .ready hget

theorem way_of_two (hs : tree.Sound) (hbase : tree.walk [] (pathNames storage.base) = .ok base)
    {name : String} (hname : FileTree.ProperName name)
    (hnames : Shelf.history.names artifact = ["history", name])
    (hpath : storage.directory .history artifact = joinPath storage.historyDir name) :
    Way tree base .history artifact
      (tree.walk [] (pathNames (storage.directory .history artifact))) := by
  have hsplit : base ++ Shelf.history.names artifact = base ++ ["history"] ++ [name] := by
    simp [hnames]
  have htop : Shelf.history.names .program = ["history"] := rfl
  have hhistory : Way tree base .history .program (tree.walk [] (pathNames storage.historyDir)) :=
    way_of_one hbase proper_history rfl rfl rfl
  rw [hpath]
  cases hwalk : tree.walk [] (pathNames storage.historyDir) with
  | error fault =>
    rw [hwalk] at hhistory
    rw [FileTree.walk_joinPath_of_error hwalk hname.slashless]
    cases hhistory with
    | missing lacks =>
      have hnone : tree.get? (base ++ Shelf.history.names artifact) = none := by
        by_contra hthere
        obtain ⟨entry, hentry⟩ := Option.ne_none_iff_exists'.mp hthere
        rw [hsplit] at hentry
        cases lacks.1.symm.trans (hs.above _ _ _ hentry)
      exact .missing ⟨hnone, by simp [Barred, hnone, lacks.1]⟩
    | barred barred =>
      obtain ⟨id, contents, hfile⟩ := barred
      exact .barred ⟨id, contents, .inr (or_self_iff.mp hfile)⟩
  | ok place =>
    rw [hwalk] at hhistory
    cases hhistory with
    | ready there =>
      rw [FileTree.walk_joinPath_eq hwalk hname, htop, ← hsplit]
      cases hget : tree.get? (base ++ Shelf.history.names artifact) with
      | none => exact .missing ⟨hget, by simp [Barred, hget, there]⟩
      | some entry =>
        cases entry with
        | file id contents => exact .barred ⟨id, contents, .inl hget⟩
        | directory => exact .ready hget

theorem way (hs : tree.Sound) (hbase : tree.walk [] (pathNames storage.base) = .ok base)
    (shelf : Shelf) (artifact : Artifact) :
    Way tree base shelf artifact
      (tree.walk [] (pathNames (storage.directory shelf artifact))) := by
  cases shelf with
  | running => exact way_of_one hbase proper_running rfl rfl rfl
  | history =>
    cases artifact with
    | program => exact way_of_one hbase proper_history rfl rfl rfl
    | state => exact way_of_two hs hbase proper_status rfl rfl
    | log => exact way_of_two hs hbase proper_logs rfl rfl

theorem Laid.not_barred (h : Laid storage tree base) (shelf : Shelf) (artifact : Artifact) :
    ¬ Barred tree base shelf artifact := by
  rintro ⟨id, contents, hfile | hfile⟩
  · cases (h.there shelf artifact).symm.trans hfile
  · cases (h.there shelf .program).symm.trans hfile

theorem Laid.not_lacks (h : Laid storage tree base) (shelf : Shelf) (artifact : Artifact) :
    ¬ Lacks tree base shelf artifact :=
  fun lacks => nomatch (h.there shelf artifact).symm.trans lacks.1

/-! ## What becomes of one file -/

/-- The file system can hold a file of a run on both shelves. -/
def takes (storage : Storage) (run : String) (artifact : Artifact) : Bool :=
  storage.nameFault .running artifact run == none && storage.nameFault .history artifact run == none

theorem takes_iff (storage : Storage) (run : String) (artifact : Artifact) :
    storage.takes run artifact = true ↔ ∀ shelf, storage.nameFault shelf artifact run = none := by
  simp only [takes, Bool.and_eq_true, beq_iff_eq]
  constructor
  · rintro ⟨hrunning, hhistory⟩ shelf
    cases shelf
    · exact hrunning
    · exact hhistory
  · intro h
    exact ⟨h .running, h .history⟩

/-- Nothing is in the way of a file of a run: the file system accepts its paths, the directory that
it goes to is there, and what is at its goal gives way to it. -/
structure Clear (storage : Storage) (tree : FileTree) (base : Path) (run : String)
    (artifact : Artifact) : Prop where
  takes : storage.takes run artifact = true
  home : tree.get? (base ++ Shelf.history.names artifact) = some .directory
  yields : tree.Yields (spot base .running artifact run) (spot base .history artifact run)

/-- What becomes of the move of one file, or of a directory in its place. -/
inductive Outcome (storage : Storage) (tree : FileTree) (base : Path) (run : String)
    (artifact : Artifact) : FileTree × Option FileFault → Prop where
  | moved (there : tree.get? (spot base .running artifact run) ≠ none)
      (clear : Clear storage tree base run artifact) :
      Outcome storage tree base run artifact
        (tree.moveFile (spot base .running artifact run) (spot base .history artifact run), none)
  | missing (absent : tree.get? (spot base .running artifact run) = none)
      (accepted : storage.takes run artifact = true ∨ Lacks tree base .running artifact) :
      Outcome storage tree base run artifact (tree, none)
  | left (lacks : Lacks tree base .history artifact) :
      Outcome storage tree base run artifact (tree, none)
  | held (fault : FileFault) (cause : storage.takes run artifact = false ∨
        (∃ shelf, Barred tree base shelf artifact) ∨
        tree.get? (spot base .running artifact run) ≠ none ∧
          ¬ tree.Yields (spot base .running artifact run) (spot base .history artifact run)) :
      Outcome storage tree base run artifact (tree, some fault)

theorem archive_of_error {fault : FileFault} (h : tree.rename
    (storage.file .running artifact run) (storage.file .history artifact run) = .error fault)
    (hfault : fault ≠ .notFound) : storage.archive tree run artifact = (tree, some fault) := by
  rw [archive_eq, h]
  cases fault with
  | notFound => exact absurd rfl hfault
  | _ => rfl

theorem archive_of_notFound (h : tree.rename (storage.file .running artifact run)
    (storage.file .history artifact run) = .error .notFound) :
    storage.archive tree run artifact = (tree, none) := by
  rw [archive_eq, h]

theorem archive_of_ok (h : tree.rename (storage.file .running artifact run)
    (storage.file .history artifact run) = .ok next) :
    storage.archive tree run artifact = (next, none) := by
  rw [archive_eq, h]

/-- With both directories there, what is in the place decides: it yields, or that is a fault. -/
theorem rename_of_there (hs : tree.Sound) (hrun : '/' ∉ run.toList)
    (holdWay : tree.walk [] (pathNames (storage.directory .running artifact)) =
      .ok (base ++ Shelf.running.names artifact))
    (hnewWay : tree.walk [] (pathNames (storage.directory .history artifact)) =
      .ok (base ++ Shelf.history.names artifact))
    (hfits : ∀ shelf, storage.nameFault shelf artifact run = none)
    (hthere : tree.get? (spot base .running artifact run) ≠ none) :
    (tree.Yields (spot base .running artifact run) (spot base .history artifact run) ∧
      tree.rename (storage.file .running artifact run) (storage.file .history artifact run) =
        .ok (tree.moveFile (spot base .running artifact run) (spot base .history artifact run))) ∨
    (¬ tree.Yields (spot base .running artifact run) (spot base .history artifact run) ∧
      ∃ fault, fault ≠ .notFound ∧ tree.rename (storage.file .running artifact run)
        (storage.file .history artifact run) = .error fault) := by
  have hrename := rename_of_open hrun holdWay hnewWay (badText_of_nameFault (hfits .running))
    (badText_of_nameFault (hfits .history))
  rw [(proper_of_nameFault hrun (hfits .running)).short, if_neg Bool.false_ne_true] at hrename
  obtain ⟨entry, hsource⟩ := Option.ne_none_iff_exists'.mp hthere
  rw [hsource] at hrename
  cases htarget : tree.get? (spot base .history artifact run) with
  | none =>
    have hmoved : tree.moveAll (spot base .running artifact run)
        (spot base .history artifact run) = tree.moveFile (spot base .running artifact run)
          (spot base .history artifact run) := by
      rw [FileTree.moveFile, hs.erase_of_free htarget]
    rw [htarget, hmoved] at hrename
    exact .inl ⟨.inl htarget, hrename⟩
  | some old =>
    rw [htarget] at hrename
    cases entry with
    | file id contents =>
      cases old with
      | file id' contents' => exact .inl ⟨.inr (.inl (by simp [hsource, htarget])), hrename⟩
      | directory => exact .inr ⟨by simp [FileTree.Yields, hsource, htarget], _, by simp, hrename⟩
    | directory =>
      cases old with
      | file id' contents' =>
        exact .inr ⟨by simp [FileTree.Yields, hsource, htarget], _, by simp, hrename⟩
      | directory =>
        by_cases hchildren : tree.children (spot base .history artifact run) = []
        · simp only [if_pos hchildren] at hrename
          refine .inl ⟨.inr (.inr ⟨hsource, htarget, ?_⟩), hrename⟩
          exact (hs.children_eq_nil_iff _).mp hchildren
        · simp only [if_neg hchildren] at hrename
          rw [hs.children_eq_nil_iff] at hchildren
          exact .inr ⟨by simpa [FileTree.Yields, hsource, htarget] using hchildren, _, by simp,
            hrename⟩

theorem outcome_of_open (hs : tree.Sound) (hrun : '/' ∉ run.toList)
    (holdWay : tree.walk [] (pathNames (storage.directory .running artifact)) =
      .ok (base ++ Shelf.running.names artifact))
    (hnewWay : tree.walk [] (pathNames (storage.directory .history artifact)) =
      .ok (base ++ Shelf.history.names artifact))
    (hhome : tree.get? (base ++ Shelf.history.names artifact) = some .directory)
    (htext : ∀ shelf, FileTree.badText (storage.file shelf artifact run) = none) :
    Outcome storage tree base run artifact (storage.archive tree run artifact) := by
  have hrename := rename_of_open hrun holdWay hnewWay (htext .running) (htext .history)
  cases hlong : FileTree.tooLong (artifact.fileName run) with
  | true =>
    rw [if_pos hlong] at hrename
    rw [archive_of_error hrename (by simp)]
    exact .held _ (.inl (by simp [takes, nameFault, htext, hlong]))
  | false =>
    have hfits : ∀ shelf, storage.nameFault shelf artifact run = none := by
      simp [nameFault, htext, hlong]
    by_cases hthere : tree.get? (spot base .running artifact run) = none
    · rw [if_neg (by simp [hlong]), hthere] at hrename
      rw [archive_of_notFound hrename]
      exact .missing hthere (.inl ((storage.takes_iff run artifact).mpr hfits))
    · rcases rename_of_there hs hrun holdWay hnewWay hfits hthere with
        ⟨hyields, hok⟩ | ⟨hnot, fault, hfault, herror⟩
      · rw [archive_of_ok hok]
        exact .moved hthere ⟨(storage.takes_iff run artifact).mpr hfits, hhome, hyields⟩
      · rw [archive_of_error herror hfault]
        exact .held fault (.inr (.inr ⟨hthere, hnot⟩))

theorem outcome (hs : tree.Sound) (hbase : tree.walk [] (pathNames storage.base) = .ok base)
    (hrun : '/' ∉ run.toList) (artifact : Artifact) :
    Outcome storage tree base run artifact (storage.archive tree run artifact) := by
  by_cases hbad : ∃ shelf, FileTree.badText (storage.file shelf artifact run) ≠ none
  · obtain ⟨fault, hfault, herror⟩ := rename_of_badText tree hrun hbad
    rw [archive_of_error herror hfault]
    refine .held fault (.inl ?_)
    obtain ⟨shelf, hshelf⟩ := hbad
    rw [← Bool.not_eq_true, takes_iff]
    exact fun hfits => hshelf (badText_of_nameFault (hfits shelf))
  simp only [ne_eq, not_exists, Decidable.not_not] at hbad
  have hrunning := way hs hbase .running artifact
  have hhistory := way hs hbase .history artifact
  cases hold : tree.walk [] (pathNames (storage.directory .running artifact)) with
  | error fault =>
    have hrename := rename_of_error hrun (hbad .running) (hbad .history) (.inl hold)
    rw [hold] at hrunning
    cases hrunning with
    | missing lacks =>
      rw [archive_of_notFound hrename]
      refine .missing ?_ (.inr lacks)
      by_contra hthere
      obtain ⟨entry, hentry⟩ := Option.ne_none_iff_exists'.mp hthere
      cases lacks.1.symm.trans (hs.above _ _ _ hentry)
    | barred barred =>
      rw [archive_of_error hrename (by simp)]
      exact .held _ (.inr (.inl ⟨.running, barred⟩))
  | ok up =>
    rw [hold] at hrunning
    cases hrunning with
    | ready _ =>
      cases hnew : tree.walk [] (pathNames (storage.directory .history artifact)) with
      | error fault =>
        have hrename := rename_of_error hrun (hbad .running) (hbad .history)
          (.inr ⟨⟨_, hold⟩, hnew⟩)
        rw [hnew] at hhistory
        cases hhistory with
        | missing lacks =>
          rw [archive_of_notFound hrename]
          exact .left lacks
        | barred barred =>
          rw [archive_of_error hrename (by simp)]
          exact .held _ (.inr (.inl ⟨.history, barred⟩))
      | ok place =>
        rw [hnew] at hhistory
        cases hhistory with
        | ready there => exact outcome_of_open hs hrun hold hnew there hbad

end Ways

end Storage
end DryKiln
