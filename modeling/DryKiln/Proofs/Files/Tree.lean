-- The laws of a tree of files. A tree that could be on a disk stays one when a file is created,
-- emptied or written, and what is found changes at one place; where the directories are never
-- changes.
import DryKiln.Files.Tree
import Mathlib.Data.List.Induction
import Mathlib.Data.List.Nodup
import Mathlib.Data.List.Pairwise

namespace DryKiln

/-! ## Look-ups by place -/

theorem lookup_cons_ite {β : Type} (p key : Path) (value : β) (rest : List (Path × β)) :
    ((key, value) :: rest).lookup p = if p = key then some value else rest.lookup p := by
  by_cases hp : p = key
  · simp [hp]
  · have hne : (p == key) = false := beq_eq_false_iff_ne.mpr hp
    simp [List.lookup_cons, hne, hp]

theorem lookup_filter_key {β : Type} (keep : Path → Bool) (p : Path) (entries : List (Path × β)) :
    (entries.filter fun e => keep e.1).lookup p = if keep p then entries.lookup p else none := by
  induction entries with
  | nil => simp
  | cons e rest ih =>
    obtain ⟨key, value⟩ := e
    by_cases hp : p = key
    · subst hp
      cases hkeep : keep p <;> simp [hkeep, ih]
    · cases hkeep : keep key <;> simp [hkeep, lookup_cons_ite, hp, ih]

theorem lookup_map_value {β : Type} (f : β → β) (p : Path) (entries : List (Path × β)) :
    (entries.map fun e => (e.1, f e.2)).lookup p = (entries.lookup p).map f := by
  induction entries with
  | nil => rfl
  | cons e rest ih =>
    obtain ⟨key, value⟩ := e
    by_cases hp : p = key <;> simp [lookup_cons_ite, hp, ih]

theorem lookup_eq_some_iff_mem {β : Type} {entries : List (Path × β)}
    (h : (entries.map Prod.fst).Nodup) (p : Path) (value : β) :
    entries.lookup p = some value ↔ (p, value) ∈ entries := by
  induction entries with
  | nil => simp
  | cons e rest ih =>
    obtain ⟨key, first⟩ := e
    rw [List.map_cons, List.nodup_cons] at h
    by_cases hp : p = key
    · subst hp
      have hrest : (p, value) ∉ rest := by
        intro hmem
        exact h.1 (List.mem_map.mpr ⟨(p, value), hmem, rfl⟩)
      simp [hrest, eq_comm]
    · simp [lookup_cons_ite, hp, ih h.2]

/-- The identity of a file. -/
def Entry.id? : Entry → Option Nat
  | .file id _ => some id
  | .directory => none

theorem Entry.id?_eq_some {entry : Entry} {id : Nat} (h : id ∈ entry.id?) :
    ∃ c, entry = .file id c := by
  cases entry with
  | directory => cases h
  | file id' c =>
    cases h
    exact ⟨c, rfl⟩

/-- What an empty file holds when it has been given so many bytes of a text. -/
def Contents.beginning (s : String) (taken : Nat) : Contents :=
  (Contents.text "").overwriteBytes 0 (s.toUTF8.toList.take taken)

namespace FileTree

/-! ## Trees that can be on a disk -/

/-- A name that a directory can hold. -/
structure ProperName (name : String) : Prop where
  slashless : '/' ∉ name.toList
  notDots : isDots name = false
  nulless : '\x00' ∉ name.toList
  short : tooLong name = false

/-- A tree that can be on a disk. -/
structure Sound (tree : FileTree) : Prop where
  distinct : (tree.entries.map Prod.fst).Nodup
  rooted : ∀ e ∈ tree.entries, e.1 ≠ []
  above : ∀ path name entry, tree.get? (path ++ [name]) = some entry →
    tree.get? path = some .directory
  named : ∀ path name entry, tree.get? (path ++ [name]) = some entry → ProperName name
  identified : ∀ p q id c d, tree.get? p = some (.file id c) → tree.get? q = some (.file id d) →
    p = q
  numbered : ∀ p id c, tree.get? p = some (.file id c) → id < tree.nextId

theorem get?_of_ne_nil (tree : FileTree) {p : Path} (hp : p ≠ []) :
    tree.get? p = tree.entries.lookup p := by
  simp [get?, hp]

theorem Sound.mem_iff {tree : FileTree} (h : tree.Sound) {p : Path} (hp : p ≠ []) (entry : Entry) :
    (p, entry) ∈ tree.entries ↔ tree.get? p = some entry := by
  rw [tree.get?_of_ne_nil hp, lookup_eq_some_iff_mem h.distinct]

theorem ne_nil_of_file {tree : FileTree} {p : Path} {id : Nat} {c : Contents}
    (h : tree.get? p = some (.file id c)) : p ≠ [] := by
  rintro rfl
  simp [get?] at h

/-- What has something below it is a directory. -/
theorem Sound.directory_of_below {tree : FileTree} (h : tree.Sound) {p q : Path} {entry : Entry}
    (hq : q ≠ []) (hget : tree.get? (p ++ q) = some entry) : tree.get? p = some .directory := by
  induction q using List.reverseRecOn generalizing entry with
  | nil => exact absurd rfl hq
  | append_singleton q name ih =>
    rw [← List.append_assoc] at hget
    have habove := h.above _ _ _ hget
    cases q with
    | nil => simpa using habove
    | cons first q => exact ih (by simp) habove

/-- Nothing lies below a place that is no directory. -/
theorem Sound.eq_of_prefix {tree : FileTree} (h : tree.Sound) {source : Path}
    (hsource : tree.get? source ≠ some .directory) {e : Path × Entry} (he : e ∈ tree.entries)
    (hstarts : source <+: e.1) : e.1 = source := by
  obtain ⟨rest, hrest⟩ := hstarts
  by_cases hnil : rest = []
  · rw [← hrest, hnil, List.append_nil]
  · exfalso
    have hget : tree.get? (source ++ rest) = some e.2 := by
      rw [hrest]
      exact (h.mem_iff (h.rooted e he) e.2).mp he
    exact hsource (h.directory_of_below hnil hget)

instance (name : String) : Decidable (ProperName name) :=
  decidable_of_iff ('/' ∉ name.toList ∧ isDots name = false ∧ '\x00' ∉ name.toList ∧
      tooLong name = false)
    ⟨fun ⟨hslash, hdots, hnul, hshort⟩ => ⟨hslash, hdots, hnul, hshort⟩,
      fun h => ⟨h.slashless, h.notDots, h.nulless, h.short⟩⟩

/-- What has to be looked at to see that a tree can be on a disk. -/
theorem sound_iff (tree : FileTree) : tree.Sound ↔
    (tree.entries.map Prod.fst).Nodup ∧
    (∀ e ∈ tree.entries, e.1 ≠ [] ∧ tree.get? e.1.dropLast = some .directory ∧
      ProperName (e.1.getLastD "")) ∧
    (tree.entries.Pairwise fun e d => ∀ id ∈ e.2.id?, id ∉ d.2.id?) ∧
    ∀ e ∈ tree.entries, ∀ id ∈ e.2.id?, id < tree.nextId := by
  constructor
  · intro h
    refine ⟨h.distinct, ?_, ?_, ?_⟩
    · intro e he
      have hroot := h.rooted e he
      obtain ⟨path, name, hpath⟩ := (List.eq_nil_or_concat e.1).resolve_left hroot
      have hget := (h.mem_iff hroot e.2).mp he
      rw [List.concat_eq_append] at hpath
      rw [hpath] at hget
      refine ⟨hroot, ?_, ?_⟩
      · rw [hpath, List.dropLast_concat]
        exact h.above _ _ _ hget
      · rw [hpath, List.getLastD_concat]
        exact h.named _ _ _ hget
    · refine (List.pairwise_map.mp h.distinct).imp_of_mem ?_
      intro e d he hd hne id hid hid'
      obtain ⟨c, hc⟩ := Entry.id?_eq_some hid
      obtain ⟨c', hc'⟩ := Entry.id?_eq_some hid'
      have hget := (h.mem_iff (h.rooted e he) e.2).mp he
      have hget' := (h.mem_iff (h.rooted d hd) d.2).mp hd
      exact hne (h.identified _ _ _ _ _ (hc ▸ hget) (hc' ▸ hget'))
    · intro e he id hid
      obtain ⟨c, hc⟩ := Entry.id?_eq_some hid
      have hget := (h.mem_iff (h.rooted e he) e.2).mp he
      exact h.numbered _ _ _ (hc ▸ hget)
  · rintro ⟨hdistinct, heach, hfiles, hnumbered⟩
    have hmem : ∀ p entry, p ≠ [] → tree.get? p = some entry → (p, entry) ∈ tree.entries := by
      intro p entry hp hget
      rwa [tree.get?_of_ne_nil hp, lookup_eq_some_iff_mem hdistinct] at hget
    refine ⟨hdistinct, fun e he => (heach e he).1, ?_, ?_, ?_, ?_⟩
    · intro path name entry hget
      simpa using (heach _ (hmem _ _ (by simp) hget)).2.1
    · intro path name entry hget
      simpa using (heach _ (hmem _ _ (by simp) hget)).2.2
    · intro p q id c d hp hq
      have hpm := hmem _ _ (ne_nil_of_file hp) hp
      have hqm := hmem _ _ (ne_nil_of_file hq) hq
      by_contra hne
      have hsymm : Std.Symm fun e d : Path × Entry => ∀ id ∈ e.2.id?, id ∉ d.2.id? :=
        ⟨fun e d h id hd he => h id he hd⟩
      have hentries : (p, Entry.file id c) ≠ (q, Entry.file id d) :=
        fun heq => hne (Prod.ext_iff.mp heq).1
      exact hfiles.forall hpm hqm hentries id rfl rfl
    · intro p id c hp
      exact hnumbered _ (hmem _ _ (ne_nil_of_file hp) hp) id rfl
instance (tree : FileTree) : Decidable tree.Sound := decidable_of_iff _ tree.sound_iff.symm

/-- The tree `next` has come out of `tree` on a disk: its directories are those of `tree`, and a
file that is not one of `tree` is new. -/
structure Steady (tree next : FileTree) : Prop where
  sound : next.Sound
  directory_iff : ∀ p, next.get? p = some .directory ↔ tree.get? p = some .directory
  nextId_le : tree.nextId ≤ next.nextId
  old : ∀ p id c, next.get? p = some (.file id c) → id < tree.nextId →
    ∃ q d, tree.get? q = some (.file id d)
  locked_eq : next.locked = tree.locked
  full_eq : next.full = tree.full

theorem Sound.steady {tree : FileTree} (h : tree.Sound) : Steady tree tree :=
  ⟨h, fun _ => Iff.rfl, Nat.le_refl _, fun p _ c hget _ => ⟨p, c, hget⟩, rfl, rfl⟩

theorem Steady.trans {tree middle next : FileTree} (h₁ : Steady tree middle)
    (h₂ : Steady middle next) : Steady tree next := by
  refine ⟨h₂.sound, fun p => (h₂.directory_iff p).trans (h₁.directory_iff p),
    Nat.le_trans h₁.nextId_le h₂.nextId_le, ?_, h₂.locked_eq.trans h₁.locked_eq,
    h₂.full_eq.trans h₁.full_eq⟩
  intro p id c hget hold
  obtain ⟨q, d, hmiddle⟩ := h₂.old p id c hget (Nat.lt_of_lt_of_le hold h₁.nextId_le)
  exact h₁.old q id d hmiddle hold

/-- A file that is gone does not come back. -/
theorem Steady.absent {tree next : FileTree} (h : Steady tree next) {id : Nat}
    (hid : id < tree.nextId) (habsent : ∀ p c, tree.get? p ≠ some (.file id c)) :
    ∀ p c, next.get? p ≠ some (.file id c) := by
  intro p c hget
  obtain ⟨q, d, hq⟩ := h.old p id c hget hid
  exact habsent q d hq

/-- Every file may be written, and the disk takes all that is written. -/
structure Willing (tree : FileTree) : Prop where
  unlocked : tree.locked = []
  roomy : tree.full = []

theorem Willing.congr {tree next : FileTree} (h : tree.Willing) (hsteady : Steady tree next) :
    next.Willing :=
  ⟨hsteady.locked_eq.trans h.unlocked, hsteady.full_eq.trans h.roomy⟩

theorem Willing.hasRoom {tree : FileTree} (h : tree.Willing) (file : OpenFile) :
    tree.hasRoom file = true := by
  simp [FileTree.hasRoom, h.roomy]

/-! ## Putting a file at a place -/

theorem get?_put (tree : FileTree) {place : Path} (hplace : place ≠ []) (entry : Entry) (p : Path) :
    (tree.put place entry).get? p = if p = place then some entry else tree.get? p := by
  by_cases hp : p = []
  · subst hp
    simp [get?, Ne.symm hplace]
  · rw [get?_of_ne_nil _ hp, get?_of_ne_nil _ hp]
    rw [put, lookup_cons_ite, lookup_filter_key fun key => key != place]
    by_cases hpp : p = place <;> simp [hpp]

theorem get?_addFile (tree : FileTree) {place : Path} (hplace : place ≠ []) (contents : Contents)
    (p : Path) : (tree.addFile place contents).1.get? p =
      if p = place then some (.file tree.nextId contents) else tree.get? p :=
  get?_put tree hplace _ p

theorem Sound.put_entries {tree : FileTree} (h : tree.Sound) {place : Path} (hplace : place ≠ [])
    (entry : Entry) : ((tree.put place entry).entries.map Prod.fst).Nodup ∧
      ∀ e ∈ (tree.put place entry).entries, e.1 ≠ [] := by
  refine ⟨?_, ?_⟩
  · rw [put, List.map_cons, List.nodup_cons]
    refine ⟨?_, h.distinct.sublist (List.filter_sublist.map _)⟩
    simp
  · intro e he
    rcases List.mem_cons.mp he with rfl | he
    · exact hplace
    · exact h.rooted e (List.mem_of_mem_filter he)

/-- The tree `next` differs from `tree` in one place, where a file is now: a new one, or the one
that has been there. -/
structure Holds (tree : FileTree) (directory : Path) (name : String) (id : Nat)
    (contents : Contents) (next : FileTree) : Prop where
  get?_eq : ∀ p, next.get? p =
    if p = directory ++ [name] then some (.file id contents) else tree.get? p
  parent : tree.get? directory = some .directory
  proper : ProperName name
  before : (tree.get? (directory ++ [name]) = none ∧ id = tree.nextId ∧
      next.nextId = tree.nextId + 1) ∨
    ∃ old, tree.get? (directory ++ [name]) = some (.file id old) ∧ next.nextId = tree.nextId
  locked_eq : next.locked = tree.locked
  full_eq : next.full = tree.full

section Holds

variable {tree next : FileTree} {directory : Path} {name : String} {id : Nat} {contents : Contents}

theorem Holds.here (h : Holds tree directory name id contents next) :
    next.get? (directory ++ [name]) = some (.file id contents) := by
  rw [h.get?_eq, if_pos rfl]

theorem Holds.elsewhere (h : Holds tree directory name id contents next) {p : Path}
    (hp : p ≠ directory ++ [name]) : next.get? p = tree.get? p := by
  rw [h.get?_eq, if_neg hp]

theorem Holds.not_directory (h : Holds tree directory name id contents next) :
    tree.get? (directory ++ [name]) ≠ some .directory := by
  rcases h.before with ⟨hnone, _⟩ | ⟨old, hold, _⟩
  · simp [hnone]
  · simp [hold]

theorem Holds.directory_iff (h : Holds tree directory name id contents next) (p : Path) :
    next.get? p = some .directory ↔ tree.get? p = some .directory := by
  by_cases hp : p = directory ++ [name]
  · subst hp
    simp [h.here, h.not_directory]
  · rw [h.elsewhere hp]

theorem Holds.nextId_le (h : Holds tree directory name id contents next) :
    tree.nextId ≤ next.nextId := by
  rcases h.before with ⟨_, _, hnext⟩ | ⟨_, _, hnext⟩ <;> omega

theorem Holds.id_lt (h : Holds tree directory name id contents next) (hs : tree.Sound) :
    id < next.nextId := by
  rcases h.before with ⟨_, hid, hnext⟩ | ⟨old, hold, hnext⟩
  · omega
  · have := hs.numbered _ _ _ hold
    omega

/-- No other place has the file. -/
theorem Holds.eq_of_id (h : Holds tree directory name id contents next) (hs : tree.Sound) {p : Path}
    {c : Contents} (hp : tree.get? p = some (.file id c)) : p = directory ++ [name] := by
  rcases h.before with ⟨_, hid, _⟩ | ⟨old, hold, _⟩
  · have := hs.numbered _ _ _ hp
    omega
  · exact hs.identified _ _ _ _ _ hp hold

theorem Sound.holds (hs : tree.Sound) (h : Holds tree directory name id contents next)
    (distinct : (next.entries.map Prod.fst).Nodup) (rooted : ∀ e ∈ next.entries, e.1 ≠ []) :
    next.Sound := by
  refine ⟨distinct, rooted, ?_, ?_, ?_, ?_⟩
  · intro path last entry hget
    rw [h.directory_iff]
    by_cases hp : path ++ [last] = directory ++ [name]
    · obtain ⟨rfl, _⟩ := List.append_inj' hp rfl
      exact h.parent
    · rw [h.elsewhere hp] at hget
      exact hs.above _ _ _ hget
  · intro path last entry hget
    by_cases hp : path ++ [last] = directory ++ [name]
    · obtain ⟨_, hlast⟩ := List.append_inj' hp rfl
      cases hlast
      exact h.proper
    · rw [h.elsewhere hp] at hget
      exact hs.named _ _ _ hget
  · intro p q i c d hp hq
    by_cases hpe : p = directory ++ [name] <;> by_cases hqe : q = directory ++ [name]
    · rw [hpe, hqe]
    · subst hpe
      rw [h.here] at hp
      rw [h.elsewhere hqe] at hq
      cases hp
      exact (h.eq_of_id hs hq).symm
    · subst hqe
      rw [h.here] at hq
      rw [h.elsewhere hpe] at hp
      cases hq
      exact h.eq_of_id hs hp
    · rw [h.elsewhere hpe] at hp
      rw [h.elsewhere hqe] at hq
      exact hs.identified _ _ _ _ _ hp hq
  · intro p i c hp
    by_cases hpe : p = directory ++ [name]
    · subst hpe
      rw [h.here] at hp
      cases hp
      exact h.id_lt hs
    · rw [h.elsewhere hpe] at hp
      exact Nat.lt_of_lt_of_le (hs.numbered _ _ _ hp) h.nextId_le

theorem Holds.steady (h : Holds tree directory name id contents next) (hs : next.Sound) :
    Steady tree next := by
  refine ⟨hs, h.directory_iff, h.nextId_le, ?_, h.locked_eq, h.full_eq⟩
  intro p id' c hget hold
  by_cases hp : p = directory ++ [name]
  · subst hp
    rw [h.here] at hget
    cases hget
    rcases h.before with ⟨_, hnew, _⟩ | ⟨old, hthere, _⟩
    · omega
    · exact ⟨_, old, hthere⟩
  · exact ⟨p, c, (h.elsewhere hp).symm.trans hget⟩

end Holds

theorem holds_addFile {tree : FileTree} {directory : Path} {name : String}
    (free : tree.get? (directory ++ [name]) = none) (parent : tree.get? directory = some .directory)
    (proper : ProperName name) (contents : Contents) :
    Holds tree directory name tree.nextId contents
      (tree.addFile (directory ++ [name]) contents).1 :=
  ⟨get?_addFile tree (by simp) contents, parent, proper, Or.inl ⟨free, rfl, rfl⟩, rfl, rfl⟩

theorem holds_put {tree : FileTree} {directory : Path} {name : String} {id : Nat} {old : Contents}
    (there : tree.get? (directory ++ [name]) = some (.file id old)) (h : tree.Sound)
    (contents : Contents) :
    Holds tree directory name id contents
      (tree.put (directory ++ [name]) (.file id contents)) :=
  ⟨get?_put tree (by simp) _, h.above _ _ _ there, h.named _ _ _ there, Or.inr ⟨old, there, rfl⟩,
    rfl, rfl⟩

/-! ## Writing -/

/-- What an entry becomes when the contents of a file are changed. -/
def changed (id : Nat) (change : Contents → Contents) : Entry → Entry
  | .file other contents => .file other (if other = id then change contents else contents)
  | .directory => .directory

theorem get?_alter (tree : FileTree) (id : Nat) (change : Contents → Contents) (p : Path) :
    (tree.alter id change).get? p = (tree.get? p).map (changed id change) := by
  have hentries : (tree.alter id change).entries =
      tree.entries.map fun e => (e.1, changed id change e.2) := by
    simp only [alter]
    refine List.map_congr_left fun e _ => ?_
    obtain ⟨key, entry⟩ := e
    cases entry with
    | directory => rfl
    | file other contents =>
      by_cases hid : other = id <;> simp [changed, hid]
  by_cases hp : p = []
  · subst hp
    simp [get?, changed]
  · rw [get?_of_ne_nil _ hp, get?_of_ne_nil _ hp, hentries, lookup_map_value]

section Alter

variable {tree : FileTree} {id : Nat} {change : Contents → Contents} {p : Path}

theorem changed_eq_directory (entry : Entry) :
    changed id change entry = .directory ↔ entry = .directory := by
  cases entry <;> simp [changed]

theorem get?_alter_eq_directory :
    (tree.alter id change).get? p = some .directory ↔ tree.get? p = some .directory := by
  rw [get?_alter]
  cases tree.get? p <;> simp [changed_eq_directory]

/-- A file is at its place before its contents are changed. -/
theorem get?_alter_eq_file {other : Nat} {c : Contents}
    (h : (tree.alter id change).get? p = some (.file other c)) :
    ∃ old, tree.get? p = some (.file other old) := by
  rw [get?_alter] at h
  cases hget : tree.get? p with
  | none => simp [hget] at h
  | some entry =>
    cases entry with
    | directory => simp [hget, changed] at h
    | file other' old =>
      simp only [hget, changed, Option.map_some, Option.some.injEq, Entry.file.injEq] at h
      exact ⟨old, by rw [h.1]⟩

/-- A file stays at its place when contents are changed. -/
theorem get?_alter_of_file {other : Nat} {c : Contents} (h : tree.get? p = some (.file other c)) :
    ∃ d, (tree.alter id change).get? p = some (.file other d) :=
  ⟨_, by rw [get?_alter, h]; rfl⟩

/-- Only the file whose contents are changed is another. -/
theorem get?_alter_of_ne (h : ∀ c, tree.get? p ≠ some (.file id c)) :
    (tree.alter id change).get? p = tree.get? p := by
  rw [get?_alter]
  cases hget : tree.get? p with
  | none => rfl
  | some entry =>
    cases entry with
    | directory => rfl
    | file other c =>
      have hid : other ≠ id := by
        rintro rfl
        exact h c hget
      simp [changed, hid]

theorem there_of_alter (hp : tree.get? p ≠ none) : (tree.alter id change).get? p ≠ none := by
  rw [get?_alter]
  simpa using hp

end Alter

theorem keys_alter (tree : FileTree) (id : Nat) (change : Contents → Contents) :
    (tree.alter id change).entries.map Prod.fst = tree.entries.map Prod.fst := by
  simp only [alter, List.map_map]
  refine List.map_congr_left fun e _ => ?_
  obtain ⟨key, entry⟩ := e
  cases entry with
  | directory => rfl
  | file other contents =>
    simp only [Function.comp_apply]
    split <;> rfl

theorem Sound.alter {tree : FileTree} (h : tree.Sound) (id : Nat) (change : Contents → Contents) :
    (tree.alter id change).Sound := by
  have hsome : ∀ p entry, (tree.alter id change).get? p = some entry →
      ∃ old, tree.get? p = some old := by
    intro p entry hget
    rw [get?_alter] at hget
    obtain ⟨old, hold, _⟩ := Option.map_eq_some_iff.mp hget
    exact ⟨old, hold⟩
  refine ⟨?_, ?_, ?_, ?_, ?_, ?_⟩
  · rw [keys_alter]
    exact h.distinct
  · intro e he
    have hkey : e.1 ∈ tree.entries.map Prod.fst := by
      rw [← keys_alter tree id change]
      exact List.mem_map_of_mem he
    obtain ⟨e', he', heq⟩ := List.mem_map.mp hkey
    exact heq ▸ h.rooted e' he'
  · intro path name entry hget
    obtain ⟨old, hold⟩ := hsome _ _ hget
    rw [get?_alter_eq_directory]
    exact h.above _ _ _ hold
  · intro path name entry hget
    obtain ⟨old, hold⟩ := hsome _ _ hget
    exact h.named _ _ _ hold
  · intro p q other c d hp hq
    obtain ⟨oldp, hp⟩ := get?_alter_eq_file hp
    obtain ⟨oldq, hq⟩ := get?_alter_eq_file hq
    exact h.identified _ _ _ _ _ hp hq
  · intro p other c hp
    obtain ⟨old, hp⟩ := get?_alter_eq_file hp
    exact h.numbered _ _ _ hp

theorem Sound.steady_alter {tree : FileTree} (h : tree.Sound) (id : Nat)
    (change : Contents → Contents) : Steady tree (tree.alter id change) := by
  refine ⟨h.alter id change, fun _ => get?_alter_eq_directory, Nat.le_refl _, ?_, rfl, rfl⟩
  intro p other c hget _
  obtain ⟨old, hold⟩ := get?_alter_eq_file hget
  exact ⟨p, old, hold⟩

theorem overwrite_fst (tree : FileTree) (file : OpenFile) (s : String) :
    (tree.overwrite file s).1 = tree.alter file.id (·.overwrite file.position s) := rfl

section Room

variable {tree : FileTree} {file : OpenFile} {s : String}

theorem hasRoom_iff : tree.hasRoom file = true ↔ file.id ∉ tree.full := by
  simp [hasRoom]

theorem write_of_room (h : file.id ∉ tree.full) (s : String) :
    tree.write file s = .ok (tree.overwrite file s) := if_pos (hasRoom_iff.mpr h)

theorem write_of_full (h : file.id ∈ tree.full) (s : String) :
    tree.write file s = .error ⟨(tree.cut file s).1, .storageFull⟩ :=
  if_neg fun hroom => hasRoom_iff.mp hroom h

theorem overwrite_of_write {result : FileTree × OpenFile} (h : tree.write file s = .ok result) :
    file.id ∉ tree.full ∧ result = tree.overwrite file s := by
  by_cases hfull : file.id ∈ tree.full
  · rw [write_of_full hfull] at h
    cases h
  · rw [write_of_room hfull] at h
    exact ⟨hfull, (Except.ok.inj h).symm⟩

theorem tryWrite_of_write {result : FileTree × OpenFile} (h : tree.write file s = .ok result) :
    tree.tryWrite file s = result := by
  obtain ⟨hroom, rfl⟩ := overwrite_of_write h
  exact if_pos (hasRoom_iff.mpr hroom)

theorem after_write (tree : FileTree) (file : OpenFile) (s : String) :
    after ((tree.write file s).map Prod.fst) = (tree.tryWrite file s).1 := by
  unfold write tryWrite
  split <;> rfl

/-- Whatever the disk takes of a text, no more than the contents of the open file change. -/
theorem tryWrite_eq_alter (tree : FileTree) (file : OpenFile) (s : String) :
    ∃ change, (tree.tryWrite file s).1 = tree.alter file.id change := by
  unfold tryWrite
  split <;> exact ⟨_, rfl⟩

theorem Sound.steady_tryWrite (h : tree.Sound) (file : OpenFile) (s : String) :
    Steady tree (tree.tryWrite file s).1 := by
  obtain ⟨change, heq⟩ := tree.tryWrite_eq_alter file s
  exact heq ▸ h.steady_alter file.id change

theorem get?_tryWrite_of_ne {p : Path} (h : ∀ c, tree.get? p ≠ some (.file file.id c)) :
    (tree.tryWrite file s).1.get? p = tree.get? p := by
  obtain ⟨change, heq⟩ := tree.tryWrite_eq_alter file s
  rw [heq, get?_alter_of_ne h]

theorem get?_tryWrite_of_file {p : Path} {id : Nat} {c : Contents}
    (h : tree.get? p = some (.file id c)) (file : OpenFile) (s : String) :
    ∃ d, (tree.tryWrite file s).1.get? p = some (.file id d) := by
  obtain ⟨change, heq⟩ := tree.tryWrite_eq_alter file s
  exact heq ▸ get?_alter_of_file h

theorem there_of_tryWrite {p : Path} (file : OpenFile) (s : String) (hp : tree.get? p ≠ none) :
    (tree.tryWrite file s).1.get? p ≠ none := by
  obtain ⟨change, heq⟩ := tree.tryWrite_eq_alter file s
  exact heq ▸ there_of_alter hp

/-- A write that fails takes nothing away. -/
theorem there_of_write {unfinished : Unfinished FileFault}
    (h : tree.write file s = .error unfinished) {p : Path} (hp : tree.get? p ≠ none) :
    unfinished.left.get? p ≠ none := by
  have hthere := there_of_tryWrite file s hp
  rwa [← after_write, h] at hthere

theorem tryWrite_id (tree : FileTree) (file : OpenFile) (s : String) :
    (tree.tryWrite file s).2.id = file.id := by
  unfold tryWrite
  split <;> rfl

end Room

/-! ## Opening files -/

/-- What is at a place may be opened for writing, if it is a file. -/
def MayOpen (tree : FileTree) (place : Path) : Prop :=
  ∀ id c, tree.get? place = some (.file id c) → id ∉ tree.locked

theorem Willing.mayOpen {tree : FileTree} (h : tree.Willing) (place : Path) :
    tree.MayOpen place := by
  simp [MayOpen, h.unlocked]

/-- What becomes of a file that is to be opened and emptied. -/
inductive Emptied (tree : FileTree) (directory : Path) (name : String) :
    Except FileFault (FileTree × OpenFile) → Prop where
  | opened {id : Nat} {next : FileTree} (mayOpen : tree.MayOpen (directory ++ [name]))
      (holds : Holds tree directory name id (.text "") next) (sound : next.Sound) :
      Emptied tree directory name (.ok (next, ⟨id, 0⟩))
  | barred (there : tree.get? (directory ++ [name]) = some .directory) :
      Emptied tree directory name (.error .isDirectory)
  | locked {id : Nat} {c : Contents} (there : tree.get? (directory ++ [name]) = some (.file id c))
      (locked : id ∈ tree.locked) : Emptied tree directory name (.error .permissionDenied)

/-- What becomes of a file that is to get a new text. -/
inductive Rewritten (tree : FileTree) (directory : Path) (name s : String) :
    Except (Unfinished FileFault) FileTree → Prop where
  | written {id : Nat} {next : FileTree} (room : id ∉ tree.full)
      (mayOpen : tree.MayOpen (directory ++ [name]))
      (holds : Holds tree directory name id (.text s) next) (sound : next.Sound) :
      Rewritten tree directory name s (.ok next)
  | cut {id taken : Nat} {left : FileTree} (full : id ∈ tree.full)
      (mayOpen : tree.MayOpen (directory ++ [name]))
      (holds : Holds tree directory name id (.beginning s taken) left) (sound : left.Sound) :
      Rewritten tree directory name s (.error ⟨left, .storageFull⟩)
  | barred (there : tree.get? (directory ++ [name]) = some .directory) :
      Rewritten tree directory name s (.error ⟨tree, .isDirectory⟩)
  | locked {id : Nat} {c : Contents} (there : tree.get? (directory ++ [name]) = some (.file id c))
      (locked : id ∈ tree.locked) :
      Rewritten tree directory name s (.error ⟨tree, .permissionDenied⟩)

/-- A file that has just been opened, with other contents. -/
theorem Holds.alter {tree next : FileTree} {directory : Path} {name : String} {id : Nat}
    {contents : Contents} (h : Holds tree directory name id contents next) (hs : tree.Sound)
    (change : Contents → Contents) :
    Holds tree directory name id (change contents) (next.alter id change) := by
  refine ⟨fun p => ?_, h.parent, h.proper, h.before, h.locked_eq, h.full_eq⟩
  by_cases hp : p = directory ++ [name]
  · subst hp
    rw [get?_alter, h.here]
    simp [changed]
  · rw [if_neg hp, ← h.elsewhere hp]
    refine get?_alter_of_ne fun c hc => hp ?_
    rw [h.elsewhere hp] at hc
    exact h.eq_of_id hs hc

theorem Holds.overwrite {tree next : FileTree} {directory : Path} {name : String} {id : Nat}
    (h : Holds tree directory name id (.text "") next) (hs : tree.Sound) (s : String) :
    Holds tree directory name id (.text s) (next.overwrite ⟨id, 0⟩ s).1 := by
  have hcontents : (Contents.text "").overwrite 0 s = .text s := by simp [Contents.overwrite]
  exact hcontents ▸ h.alter hs (·.overwrite 0 s)

theorem Holds.cut {tree next : FileTree} {directory : Path} {name : String} {id : Nat}
    (h : Holds tree directory name id (.text "") next) (hs : tree.Sound) (s : String) :
    Holds tree directory name id (.beginning s (next.takes ⟨id, 0⟩)) (next.cut ⟨id, 0⟩ s).1 :=
  h.alter hs _

section Opening

variable {tree : FileTree} {path : String} {directory : Path} {name : String}

theorem create_of_free (h : tree.Sound) (hpath : tree.resolve path = .ok (directory ++ [name]))
    (parent : tree.get? directory = some .directory) (proper : ProperName name)
    (free : tree.get? (directory ++ [name]) = none) :
    ∃ next, tree.create path = .ok (next, ⟨tree.nextId, 0⟩) ∧
      Holds tree directory name tree.nextId (.text "") next ∧ next.Sound := by
  have hholds := holds_addFile free parent proper (.text "")
  have hplace : directory ++ [name] ≠ [] := by simp
  obtain ⟨hdistinct, hrooted⟩ := h.put_entries hplace (.file tree.nextId (.text ""))
  refine ⟨_, ?_, hholds, h.holds hholds hdistinct hrooted⟩
  simp only [create, hpath, free, bind, Except.bind]
  rfl

theorem create_of_taken {entry : Entry} (hpath : tree.resolve path = .ok (directory ++ [name]))
    (taken : tree.get? (directory ++ [name]) = some entry) :
    tree.create path = .error .alreadyExists := by
  simp only [create, hpath, taken, bind, Except.bind]
  rfl

theorem create_of_error {fault : FileFault} (hpath : tree.resolve path = .error fault) :
    tree.create path = .error fault := by
  simp only [create, hpath, bind, Except.bind]

theorem emptied (h : tree.Sound) (hpath : tree.resolve path = .ok (directory ++ [name]))
    (parent : tree.get? directory = some .directory) (proper : ProperName name) :
    Emptied tree directory name (tree.openEmpty path) := by
  have hplace : directory ++ [name] ≠ [] := by simp
  cases hget : tree.get? (directory ++ [name]) with
  | none =>
    have hopen : tree.openEmpty path = .ok (tree.addFile (directory ++ [name]) (.text "")) := by
      simp only [openEmpty, hpath, hget, bind, Except.bind]
      rfl
    have hholds := holds_addFile hget parent proper (.text "")
    obtain ⟨hdistinct, hrooted⟩ := h.put_entries hplace (.file tree.nextId (.text ""))
    rw [hopen]
    exact .opened (by simp [MayOpen, hget]) hholds (h.holds hholds hdistinct hrooted)
  | some entry =>
    cases entry with
    | directory =>
      have hopen : tree.openEmpty path = .error .isDirectory := by
        simp only [openEmpty, hpath, hget, bind, Except.bind]
        rfl
      rw [hopen]
      exact .barred hget
    | file id old =>
      by_cases hlocked : id ∈ tree.locked
      · have hopen : tree.openEmpty path = .error .permissionDenied := by
          simp only [openEmpty, hpath, hget, hlocked, bind, Except.bind, if_true]
          rfl
        rw [hopen]
        exact .locked hget hlocked
      · have hopen : tree.openEmpty path =
            .ok (tree.put (directory ++ [name]) (.file id (.text "")), ⟨id, 0⟩) := by
          simp only [openEmpty, hpath, hget, hlocked, bind, Except.bind, if_false]
          rfl
        have hmay : tree.MayOpen (directory ++ [name]) := by
          intro other c hother
          cases hget.symm.trans hother
          exact hlocked
        have hholds := holds_put hget h (.text "")
        obtain ⟨hdistinct, hrooted⟩ := h.put_entries hplace (.file id (.text ""))
        rw [hopen]
        exact .opened hmay hholds (h.holds hholds hdistinct hrooted)

theorem openEmpty_of_plain (h : tree.Sound) (hpath : tree.resolve path = .ok (directory ++ [name]))
    (parent : tree.get? directory = some .directory) (proper : ProperName name)
    (plain : tree.get? (directory ++ [name]) ≠ some .directory)
    (mayOpen : tree.MayOpen (directory ++ [name])) :
    ∃ id next, tree.openEmpty path = .ok (next, ⟨id, 0⟩) ∧
      Holds tree directory name id (.text "") next ∧ next.Sound := by
  have hemptied := emptied h hpath parent proper
  cases hopen : tree.openEmpty path with
  | ok opened =>
    rw [hopen] at hemptied
    cases hemptied with
    | opened _ holds sound => exact ⟨_, _, rfl, holds, sound⟩
  | error fault =>
    rw [hopen] at hemptied
    cases hemptied with
    | barred there => exact absurd there plain
    | locked there locked => exact absurd locked (mayOpen _ _ there)

theorem openEmpty_of_error {fault : FileFault} (hpath : tree.resolve path = .error fault) :
    tree.openEmpty path = .error fault := by
  simp only [openEmpty, hpath, bind, Except.bind]

/-- A file that has been created was not there before. -/
theorem there_of_create {opened : FileTree × OpenFile} (h : tree.create path = .ok opened) :
    ∃ place, tree.get? place = none ∧ opened.1.get? place ≠ none := by
  cases hresolve : tree.resolve path with
  | error fault => simp [create_of_error hresolve] at h
  | ok place =>
    simp only [create, hresolve, bind, Except.bind] at h
    split at h
    · cases h
    · rename_i hfree
      cases h
      have hplace : place ≠ [] := by
        rintro rfl
        simp [get?] at hfree
      exact ⟨place, hfree, by simp [get?_addFile tree hplace]⟩

/-- A file that is opened takes nothing away. -/
theorem there_of_openEmpty {opened : FileTree × OpenFile} (h : tree.openEmpty path = .ok opened)
    {p : Path} (hp : tree.get? p ≠ none) : opened.1.get? p ≠ none := by
  cases hresolve : tree.resolve path with
  | error fault => simp [openEmpty_of_error hresolve] at h
  | ok place =>
    simp only [openEmpty, hresolve, bind, Except.bind] at h
    split at h
    · cases h
    · rename_i id old hget
      split at h
      · cases h
      · cases h
        rw [get?_put tree (ne_nil_of_file hget)]
        split <;> simp [hp]
    · rename_i hfree
      cases h
      have hplace : place ≠ [] := by
        rintro rfl
        simp [get?] at hfree
      rw [get?_addFile tree hplace]
      split <;> simp [hp]

/-- A file that is to get a new text takes nothing away, whatever becomes of it. -/
theorem there_of_writeText (path s : String) {p : Path} (hp : tree.get? p ≠ none) :
    (after (tree.writeText path s)).get? p ≠ none := by
  unfold writeText
  cases hopen : tree.openEmpty path with
  | error fault => exact hp
  | ok opened =>
    dsimp only
    rw [after_write]
    exact there_of_tryWrite opened.2 s (there_of_openEmpty hopen hp)

theorem rewritten (h : tree.Sound) (hpath : tree.resolve path = .ok (directory ++ [name]))
    (parent : tree.get? directory = some .directory) (proper : ProperName name) (s : String) :
    Rewritten tree directory name s (tree.writeText path s) := by
  have hemptied := emptied h hpath parent proper
  unfold writeText
  cases hopen : tree.openEmpty path with
  | error fault =>
    rw [hopen] at hemptied
    cases hemptied with
    | barred there => exact .barred there
    | locked there locked => exact .locked there locked
  | ok opened =>
    rw [hopen] at hemptied
    cases hemptied with
    | @opened id next mayOpen holds sound =>
      by_cases hfull : id ∈ tree.full
      · have hwrite : next.write ⟨id, 0⟩ s = .error ⟨(next.cut ⟨id, 0⟩ s).1, .storageFull⟩ :=
          write_of_full (holds.full_eq ▸ hfull) s
        simp only [hwrite]
        exact .cut hfull mayOpen (holds.cut h s) (sound.alter _ _)
      · have hwrite : next.write ⟨id, 0⟩ s = .ok (next.overwrite ⟨id, 0⟩ s) :=
          write_of_room (holds.full_eq ▸ hfull) s
        simp only [hwrite]
        exact .written hfull mayOpen (holds.overwrite h s) (sound.alter _ _)

theorem writeText_of_error {fault : FileFault} (s : String)
    (hopen : tree.openEmpty path = .error fault) :
    tree.writeText path s = .error ⟨tree, fault⟩ := by
  simp only [writeText, hopen]

theorem readText_of_text {id : Nat} {s : String}
    (hpath : tree.resolve path = .ok (directory ++ [name]))
    (hget : tree.get? (directory ++ [name]) = some (.file id (.text s))) :
    tree.readText path = .ok s := by
  simp only [readText, hpath, hget, bind, Except.bind]
  rfl

end Opening

end FileTree
end DryKiln
