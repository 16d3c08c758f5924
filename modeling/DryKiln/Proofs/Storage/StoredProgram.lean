-- The stored copy of a program. Whatever tree a run is created in, the file that its path leads to
-- then holds the text of the program; and the program is read from it again exactly if each of its
-- numbers has a text that is read as the same number, which the check before a run does not ask.
import DryKiln.CommandLine.StartUp
import DryKiln.Program.Admission
import DryKiln.Proofs.Document.Programs
import DryKiln.Proofs.Storage.Places

namespace DryKiln

namespace FileTree

variable {tree next : FileTree} {path : String} {place : Path}

/-- A path leads where it led, if what was a directory is one. -/
theorem resolve_of_directories
    (h : ∀ p, tree.get? p = some .directory → next.get? p = some .directory)
    (hpath : tree.resolve path = .ok place) : next.resolve path = .ok place := by
  unfold resolve at hpath ⊢
  cases hbad : badText path with
  | some fault =>
    rw [hbad] at hpath
    cases hpath
  | none =>
    rw [hbad] at hpath
    simp only [placeOf] at hpath ⊢
    split at hpath
    · exact hpath
    · split at hpath
      · rename_i hdots
        rw [if_pos hdots]
        exact walk_of_directories h hpath
      · rename_i hdots
        rw [if_neg hdots]
        cases hwalk : tree.walk [] (pathNames path).dropLast with
        | error fault =>
          rw [hwalk] at hpath
          cases hpath
        | ok directory =>
          rw [hwalk] at hpath
          rw [walk_of_directories h hwalk]
          exact hpath

/-- What is written to a file that has just been created is read from it, in any tree. -/
theorem readText_of_create {opened : FileTree × OpenFile} (hok : tree.create path = .ok opened)
    (s : String) : (opened.1.overwrite opened.2 s).1.readText path = .ok s := by
  cases hpath : tree.resolve path with
  | error fault =>
    rw [create_of_error hpath] at hok
    cases hok
  | ok place =>
    cases hget : tree.get? place with
    | some entry =>
      simp only [create, hpath, hget, bind, Except.bind] at hok
      cases hok
    | none =>
      have hplace : place ≠ [] := by
        rintro rfl
        simp [get?] at hget
      obtain rfl : tree.addFile place (.text "") = opened := by
        simp only [create, hpath, hget, bind, Except.bind] at hok
        exact Except.ok.inj hok
      have hdirectory : ∀ p, tree.get? p = some .directory →
          ((tree.addFile place (.text "")).1.overwrite (tree.addFile place (.text "")).2 s).1.get?
            p = some .directory := by
        intro p hp
        rw [overwrite_fst, get?_alter_eq_directory, get?_addFile tree hplace, if_neg ?_]
        · exact hp
        · rintro rfl
          cases hget.symm.trans hp
      have hthere : ((tree.addFile place (.text "")).1.overwrite
          (tree.addFile place (.text "")).2 s).1.get? place =
            some (.file tree.nextId (.text s)) := by
        rw [overwrite_fst, get?_alter, get?_addFile tree hplace, if_pos rfl]
        simp [changed, addFile, Contents.overwrite]
      simp only [readText, resolve_of_directories hdirectory hpath, hthere, bind, Except.bind]
      rfl

end FileTree

namespace Storage

/-- A run that has been created has its program in the file that its path leads to. -/
theorem readText_of_createRun {storage : Storage} {tree next : FileTree} {run : String}
    {program : Program} (hok : storage.createRun tree run program = .ok next) :
    next.readText (storage.runningFile .program run) = .ok (programText program) := by
  obtain ⟨opened, _, hcreate, hwrite, rfl⟩ := created_of_ok hok
  obtain ⟨-, rfl⟩ := FileTree.overwrite_of_write hwrite
  exact FileTree.readText_of_create hcreate _

theorem check_of_ready {program ready : Program} {defaults : Defaults}
    (h : program.ready defaults = .ok ready) : ready.check = .ok () := by
  unfold Program.ready at h
  cases hcheck : (program.fill defaults).check with
  | error fault => simp [hcheck, Except.map] at h
  | ok accepted =>
    obtain rfl : program.fill defaults = ready := by simpa [hcheck, Except.map] using h
    exact hcheck

/-- What is read from the file of a run that has been created. -/
theorem readProgram_of_createRun {storage : Storage} {tree next : FileTree} {run : String}
    {program : Program} (hok : storage.createRun tree run program = .ok next) :
    readProgram next (storage.runningFile .program run) =
      (Program.ofDocument (Json.reread program.toDocument)).mapError .programText := by
  have hread : next.readText (storage.runningFile .program run) =
      .ok (Json.text .indented program.toDocument) := readText_of_createRun hok
  simp only [readProgram, hread, Except.mapError, bind, Except.bind, Json.read?_text, readable]

/-- A program that may be run is stored as it is run, and would be accepted again. It is read from
its file exactly if its numbers are read back. -/
theorem stored_program_is_read_iff {storage : Storage} {tree next : FileTree} {run : String}
    {program ready : Program} {defaults : Defaults} (hready : program.ready defaults = .ok ready)
    (hok : storage.createRun tree run ready = .ok next) :
    let path := storage.runningFile .program run
    next.readText path = .ok (Json.text .indented ready.toDocument) ∧
      (readProgram next path = .ok ready ↔ ready.ReadsBack) ∧ ready.check = .ok () := by
  intro path
  refine ⟨readText_of_createRun hok, ?_, check_of_ready hready⟩
  rw [← Program.reread_iff, readProgram_of_createRun hok]
  cases Program.ofDocument (Json.reread ready.toDocument) <;> simp [Except.mapError]

/-- The standard heated rest is read from its file. -/
theorem rest_is_read_from_its_file :
    let program : Program :=
      ⟨"oak", [⟨"rest", .acclimate, some 40, some 10, ⟨none, none, none⟩⟩], none⟩
    ∃ ready next, program.ready .standard = .ok ready ∧
      createRun ⟨""⟩ bareTree "oak@1" ready = .ok next ∧
      readProgram next (runningFile ⟨""⟩ .program "oak@1") = .ok ready := by
  intro program
  have hready : program.ready .standard = .ok (program.fill .standard) := by decide +kernel
  obtain ⟨next, hnext⟩ :
      ∃ next, createRun ⟨""⟩ bareTree "oak@1" (program.fill .standard) = .ok next := by
    refine (laid_bareTree.createRun_ok_iff (by decide) _).mpr ⟨?_, ?_, ?_⟩
    · decide
    · decide
    · decide
  have hnumbers : (program.fill .standard).ReadsBack := by decide +kernel
  exact ⟨_, next, hready, hnext, (stored_program_is_read_iff hready hnext).2.1.mpr hnumbers⟩

/-- A program whose heater keeps a band without an upper end. -/
def endlessBand : Program where
  name := "oak"
  steps := [⟨"up", .heating, some 60, none, ⟨some (.band 1 (1 / 0)), some .off, some .off⟩⟩]
  maxRuntime := none

/-- A text that the program is read from. -/
def endlessText : String :=
  "\x7b\"name\":\"oak\",\"steps\":[\x7b\"name\":\"up\",\"type\":\"heating\"," ++
    "\"temperature_target\":60,\"heater\":\x7b\"min_delta\":1,\"max_delta\":1e39\x7d," ++
    "\"fan\":\x7b\"power\":0\x7d,\"humidifier\":\x7b\"power\":0\x7d\x7d]\x7d"

/-- The band without an upper end is accepted, but its upper end is stored as null: from the stored
copy no program can be read. -/
theorem endless_band_is_stored_unreadable :
    (readable (Json.read? endlessText) >>= Program.ofDocument) = .ok endlessBand ∧
      endlessBand.ready .standard = .ok endlessBand ∧
      ∃ next, createRun ⟨""⟩ bareTree "oak@1" endlessBand = .ok next ∧
        readProgram next (runningFile ⟨""⟩ .program "oak@1") =
          .error (.programText (.regulation .halfBand)) := by
  have hread : (readable (Json.read? endlessText) >>= Program.ofDocument) = .ok endlessBand := by
    decide +kernel
  have hready : endlessBand.ready .standard = .ok endlessBand := by decide +kernel
  obtain ⟨next, hnext⟩ : ∃ next, createRun ⟨""⟩ bareTree "oak@1" endlessBand = .ok next := by
    refine (laid_bareTree.createRun_ok_iff (by decide) _).mpr ⟨?_, ?_, ?_⟩
    · decide
    · decide
    · decide
  have hstored : Program.ofDocument (Json.reread endlessBand.toDocument) =
      .error (.regulation .halfBand) := by decide +kernel
  exact ⟨hread, hready, next, hnext, by rw [readProgram_of_createRun hnext, hstored]; rfl⟩

end Storage
end DryKiln
