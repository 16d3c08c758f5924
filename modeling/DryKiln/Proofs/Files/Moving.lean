-- The laws of moves. What is at a place goes to another place with all that is below it, if nothing
-- is below that; everything else stays where it is, and a tree that could be on a disk stays one.
-- Where the directories are does not change when a file is moved.
import DryKiln.Proofs.Files.Tree

namespace DryKiln
namespace FileTree

/-! ## Places after a move -/

/-- The tree after a move, with what was at the target removed. -/
def moveFile (tree : FileTree) (source target : Path) : FileTree :=
  (tree.erase target).moveAll source target

/-- What a place is called after a move. -/
def rekey (source target key : Path) : Path :=
  if source.isPrefixOf key then target ++ key.drop source.length else key

section Keys

variable {source target key other : Path}

theorem rekey_append (source target rest : Path) :
    rekey source target (source ++ rest) = target ++ rest := by
  simp [rekey]

theorem rekey_of_not_below (h : ¬ source <+: key) : rekey source target key = key := by
  simp [rekey, h]

/-- No two things come to the same place, if nothing is where they go. -/
theorem rekey_inj (hkey : ¬ target <+: key) (hother : ¬ target <+: other)
    (h : rekey source target key = rekey source target other) : key = other := by
  by_cases hbelow : source <+: key <;> by_cases hbelow' : source <+: other
  · obtain ⟨rest, rfl⟩ := hbelow
    obtain ⟨rest', rfl⟩ := hbelow'
    rw [rekey_append, rekey_append] at h
    rw [List.append_cancel_left h]
  · obtain ⟨rest, rfl⟩ := hbelow
    rw [rekey_append, rekey_of_not_below hbelow'] at h
    exact absurd (h ▸ List.prefix_append target rest) hother
  · obtain ⟨rest, rfl⟩ := hbelow'
    rw [rekey_append, rekey_of_not_below hbelow] at h
    exact absurd (h ▸ List.prefix_append target rest) hkey
  · rwa [rekey_of_not_below hbelow, rekey_of_not_below hbelow'] at h

theorem lookup_rekey_target {β : Type} {entries : List (Path × β)}
    (hfree : ∀ e ∈ entries, ¬ target <+: e.1) (rest : Path) :
    (entries.map fun e => (rekey source target e.1, e.2)).lookup (target ++ rest) =
      entries.lookup (source ++ rest) := by
  induction entries with
  | nil => rfl
  | cons e entries ih =>
    obtain ⟨key, value⟩ := e
    have hrest := ih fun e he => hfree e (by simp [he])
    rw [List.map_cons, lookup_cons_ite, lookup_cons_ite, hrest]
    by_cases hbelow : source <+: key
    · obtain ⟨rest', rfl⟩ := hbelow
      simp only [rekey_append, List.append_cancel_left_eq]
    · have hkey : target ++ rest ≠ key := by
        rintro rfl
        exact hfree _ List.mem_cons_self (List.prefix_append _ _)
      have hsource : source ++ rest ≠ key := by
        rintro rfl
        exact hbelow (List.prefix_append _ _)
      rw [rekey_of_not_below hbelow, if_neg hkey, if_neg hsource]

theorem lookup_rekey_elsewhere {β : Type} {p : Path} (hp : ¬ target <+: p)
    (entries : List (Path × β)) :
    (entries.map fun e => (rekey source target e.1, e.2)).lookup p =
      if source <+: p then none else entries.lookup p := by
  induction entries with
  | nil => simp
  | cons e entries ih =>
    obtain ⟨key, value⟩ := e
    rw [List.map_cons, lookup_cons_ite, lookup_cons_ite, ih]
    by_cases hbelow : source <+: key
    · obtain ⟨rest, rfl⟩ := hbelow
      have hkey : p ≠ target ++ rest := by
        rintro rfl
        exact hp (List.prefix_append _ _)
      rw [rekey_append, if_neg hkey]
      by_cases hsource : source <+: p
      · rw [if_pos hsource, if_pos hsource]
      · have hne : p ≠ source ++ rest := by
          rintro rfl
          exact hsource (List.prefix_append _ _)
        rw [if_neg hsource, if_neg hsource, if_neg hne]
    · rw [rekey_of_not_below hbelow]
      by_cases hkey : p = key
      · subst hkey
        rw [if_pos rfl, if_neg hbelow, if_pos rfl]
      · rw [if_neg hkey, if_neg hkey]

end Keys

/-! ## Places with nothing below them -/

/-- Nothing is below a place. -/
def Bare (tree : FileTree) (place : Path) : Prop :=
  ∀ rest, rest ≠ [] → tree.get? (place ++ rest) = none

section Bare

variable {tree : FileTree} {place target : Path}

theorem Sound.bare_of_plain (h : tree.Sound) (hplace : tree.get? place ≠ some .directory) :
    tree.Bare place := by
  intro rest hrest
  by_contra hthere
  obtain ⟨entry, hentry⟩ := Option.ne_none_iff_exists'.mp hthere
  exact hplace (h.directory_of_below hrest hentry)

/-- Where nothing lies directly in a directory, nothing lies below it. -/
theorem Sound.bare_of_childless (h : tree.Sound)
    (hnone : ∀ name, tree.get? (place ++ [name]) = none) : tree.Bare place := by
  intro rest hrest
  obtain ⟨name, more, rfl⟩ := List.exists_cons_of_ne_nil hrest
  by_cases hmore : more = []
  · rw [hmore]
    exact hnone name
  · have hplain : tree.get? (place ++ [name]) ≠ some .directory := by simp [hnone]
    have hbare := h.bare_of_plain hplain more hmore
    rwa [List.append_assoc] at hbare

theorem get?_erase (tree : FileTree) {target : Path} (htarget : target ≠ []) (p : Path) :
    (tree.erase target).get? p = if target.isPrefixOf p then none else tree.get? p := by
  by_cases hp : p = []
  · subst hp
    simp [get?, htarget]
  · rw [get?_of_ne_nil _ hp, get?_of_ne_nil _ hp, erase,
      lookup_filter_key fun key => !target.isPrefixOf key]
    cases htp : target.isPrefixOf p <;> simp

theorem Sound.erase_of_free (h : tree.Sound) (htarget : tree.get? target = none) :
    tree.erase target = tree := by
  have hnil : target ≠ [] := by
    rintro rfl
    simp [get?] at htarget
  have hall : tree.entries.filter (fun e => !target.isPrefixOf e.1) = tree.entries := by
    rw [List.filter_eq_self]
    intro e he
    have hnot : ¬target <+: e.1 := by
      intro hstarts
      have heq := h.eq_of_prefix (by simp [htarget]) he hstarts
      have hmem := (h.mem_iff hnil e.2).mp (heq ▸ he)
      simp [htarget] at hmem
    simpa [← List.isPrefixOf_iff_prefix] using hnot
  simp [erase, hall]

theorem mem_erase {e : Path × Entry} :
    e ∈ (tree.erase target).entries ↔ e ∈ tree.entries ∧ ¬target <+: e.1 := by
  simp [erase, ← List.isPrefixOf_iff_prefix]

end Bare

/-! ## Moving a file or a directory -/

/-- What was at a place, with all that was below it, is at another place now. -/
structure Went (tree next : FileTree) (source target : Path) : Prop where
  there : ∀ rest, next.get? (target ++ rest) = tree.get? (source ++ rest)
  gone : ∀ rest, next.get? (source ++ rest) = none

/-- Nothing else is different. -/
structure Moved (tree next : FileTree) (source target : Path) : Prop
    extends Went tree next source target where
  elsewhere : ∀ p, ¬ source <+: p → ¬ target <+: p → next.get? p = tree.get? p

/-- What is at a place gives way to what comes to it: nothing is there, or a file comes and finds a
file, or a directory comes and finds one with nothing in it. -/
def Yields (tree : FileTree) (source target : Path) : Prop :=
  tree.get? target = none ∨
  (tree.get? source ≠ some .directory ∧ tree.get? target ≠ some .directory) ∨
  tree.get? source = some .directory ∧ tree.get? target = some .directory ∧
    ∀ name, tree.get? (target ++ [name]) = none

section Move

variable {tree next : FileTree} {source target directory p : Path} {name : String} {entry : Entry}

/-- What is there and is no directory is a file. -/
theorem file_of_plain {place : Path} (hthere : tree.get? place ≠ none)
    (hplain : tree.get? place ≠ some .directory) :
    ∃ id contents, tree.get? place = some (.file id contents) := by
  obtain ⟨entry, hentry⟩ := Option.ne_none_iff_exists'.mp hthere
  cases entry with
  | directory => exact absurd hentry hplain
  | file id contents => exact ⟨id, contents, hentry⟩

/-- No directory gives way to a file, and nothing else is in its way. -/
theorem yields_iff_of_plain (hplain : tree.get? source ≠ some .directory) :
    tree.Yields source target ↔ tree.get? target ≠ some .directory := by
  constructor
  · rintro (hnone | ⟨_, htarget⟩ | ⟨hsource, _⟩)
    · simp [hnone]
    · exact htarget
    · exact absurd hsource hplain
  · exact fun htarget => .inr (.inl ⟨hplain, htarget⟩)

theorem Sound.bare_of_yields (h : tree.Sound) (hyields : tree.Yields source target) :
    tree.Bare target := by
  rcases hyields with hnone | ⟨_, hplain⟩ | ⟨_, _, hchildless⟩
  · exact h.bare_of_plain (by simp [hnone])
  · exact h.bare_of_plain hplain
  · exact h.bare_of_childless hchildless

theorem entries_moveFile (tree : FileTree) (source target : Path) :
    (tree.moveFile source target).entries =
      (tree.erase target).entries.map fun e => (rekey source target e.1, e.2) := by
  simp only [moveFile, moveAll]
  refine List.map_congr_left fun e _ => ?_
  unfold rekey
  split <;> rfl

theorem moved_moveFile (hsource : tree.get? source ≠ none) (hbare : tree.Bare target)
    (hapart : ¬ source <+: target) :
    Moved tree (tree.moveFile source target) source target := by
  have hsourceNil : source ≠ [] := by
    rintro rfl
    exact hapart (List.nil_prefix)
  have htargetNil : target ≠ [] := by
    rintro rfl
    exact hsource (by simpa using hbare source hsourceNil)
  -- what is moved does not lie below the target
  have hnot : ∀ rest, ¬ target <+: source ++ rest := by
    intro rest hbelow
    rcases List.prefix_or_prefix_of_prefix hbelow (List.prefix_append source rest) with h | h
    · obtain ⟨more, rfl⟩ := h
      by_cases hmore : more = []
      · exact hapart (by simp [hmore])
      · exact hsource (hbare more hmore)
    · exact hapart h
  have hfree : ∀ e ∈ (tree.erase target).entries, ¬ target <+: e.1 :=
    fun e he => (mem_erase.mp he).2
  have helse : ∀ p, ¬ target <+: p → (tree.moveFile source target).get? p =
      if source <+: p then none else tree.get? p := by
    intro p hp
    by_cases hnil : p = []
    · subst hnil
      simp [get?, hsourceNil]
    · rw [get?_of_ne_nil _ hnil, entries_moveFile, lookup_rekey_elsewhere hp,
        ← get?_of_ne_nil _ hnil, get?_erase tree htargetNil]
      simp [hp]
  refine ⟨⟨fun rest => ?_, fun rest => ?_⟩, fun p hp hp' => ?_⟩
  · rw [get?_of_ne_nil _ (by simp [htargetNil]), entries_moveFile, lookup_rekey_target hfree,
      ← get?_of_ne_nil _ (by simp [hsourceNil]), get?_erase tree htargetNil,
      if_neg (by simpa [List.isPrefixOf_iff_prefix] using hnot rest)]
  · rw [helse _ (hnot rest), if_pos (List.prefix_append _ _)]
  · rw [helse p hp', if_neg hp]

/-- Where something is after a move, it was there before, or was at the place that was moved. -/
theorem Moved.origin (h : Moved tree next source target) (hp : next.get? p = some entry) :
    (∃ rest, p = target ++ rest ∧ tree.get? (source ++ rest) = some entry) ∨
      ¬ source <+: p ∧ ¬ target <+: p ∧ tree.get? p = some entry := by
  by_cases htarget : target <+: p
  · obtain ⟨rest, rfl⟩ := htarget
    exact .inl ⟨rest, rfl, by rw [← h.there, hp]⟩
  by_cases hsource : source <+: p
  · obtain ⟨rest, rfl⟩ := hsource
    cases (h.gone rest).symm.trans hp
  · exact .inr ⟨hsource, htarget, by rw [← h.elsewhere p hsource htarget, hp]⟩

theorem keys_moveFile (h : tree.Sound) (source : Path) (htarget : target ≠ []) :
    ((tree.moveFile source target).entries.map Prod.fst).Nodup ∧
      ∀ e ∈ (tree.moveFile source target).entries, e.1 ≠ [] := by
  rw [entries_moveFile]
  refine ⟨?_, ?_⟩
  · have hkeys : ((tree.erase target).entries.map Prod.fst).Nodup :=
      h.distinct.sublist (List.filter_sublist.map _)
    rw [List.map_map]
    change ((tree.erase target).entries.map (rekey source target ∘ Prod.fst)).Nodup
    rw [← List.map_map]
    refine List.Nodup.map_on ?_ hkeys
    intro x hx y hy hxy
    obtain ⟨e, he, rfl⟩ := List.mem_map.mp hx
    obtain ⟨d, hd, rfl⟩ := List.mem_map.mp hy
    exact rekey_inj (mem_erase.mp he).2 (mem_erase.mp hd).2 hxy
  · intro e he
    obtain ⟨d, hd, rfl⟩ := List.mem_map.mp he
    by_cases hbelow : source <+: d.1
    · obtain ⟨rest, hrest⟩ := hbelow
      simp only [← hrest, rekey_append]
      simp [htarget]
    · simp only [rekey_of_not_below hbelow]
      exact h.rooted d (mem_erase.mp hd).1

/-- A tree stays one that can be on a disk when something is moved into a directory. -/
theorem Sound.moveFile (h : tree.Sound) (hsource : tree.get? source ≠ none)
    (hbare : tree.Bare (directory ++ [name])) (hapart : ¬ source <+: directory ++ [name])
    (hparent : tree.get? directory = some .directory) (hname : ProperName name) :
    (tree.moveFile source (directory ++ [name])).Sound := by
  have hmoved := moved_moveFile hsource hbare hapart
  obtain ⟨hdistinct, hrooted⟩ := keys_moveFile h source (show directory ++ [name] ≠ [] by simp)
  refine ⟨hdistinct, hrooted, ?_, ?_, ?_, ?_⟩
  · intro path last entry hget
    rcases hmoved.origin hget with ⟨rest, hpath, hold⟩ | ⟨hsourceNot, htargetNot, hold⟩
    · rcases List.eq_nil_or_concat rest with rfl | ⟨up, last', rfl⟩
      · rw [List.append_nil] at hpath
        obtain ⟨rfl, _⟩ := List.append_inj' hpath rfl
        rw [hmoved.elsewhere path (fun hbelow => hapart (hbelow.trans (List.prefix_append _ _)))]
        · exact hparent
        · intro hbelow
          exact absurd hbelow.length_le (by simp)
      · rw [List.concat_eq_append, ← List.append_assoc] at hpath hold
        obtain ⟨rfl, _⟩ := List.append_inj' hpath rfl
        rw [hmoved.there]
        exact h.above _ _ _ hold
    · rw [hmoved.elsewhere path
        (fun hbelow => hsourceNot (hbelow.trans (List.prefix_append _ _)))
        (fun hbelow => htargetNot (hbelow.trans (List.prefix_append _ _)))]
      exact h.above _ _ _ hold
  · intro path last entry hget
    rcases hmoved.origin hget with ⟨rest, hpath, hold⟩ | ⟨_, _, hold⟩
    · rcases List.eq_nil_or_concat rest with rfl | ⟨up, last', rfl⟩
      · rw [List.append_nil] at hpath
        obtain ⟨_, hlast⟩ := List.append_inj' hpath rfl
        cases hlast
        exact hname
      · rw [List.concat_eq_append, ← List.append_assoc] at hpath hold
        obtain ⟨_, hlast⟩ := List.append_inj' hpath rfl
        cases hlast
        exact h.named _ _ _ hold
    · exact h.named _ _ _ hold
  · intro p q id c d hp hq
    rcases hmoved.origin hp with ⟨rest, rfl, hold⟩ | ⟨hpSource, _, hold⟩ <;>
    rcases hmoved.origin hq with ⟨rest', rfl, hold'⟩ | ⟨hqSource, _, hold'⟩
    · rw [List.append_cancel_left (h.identified _ _ _ _ _ hold hold')]
    · exact absurd (h.identified _ _ _ _ _ hold hold' ▸ List.prefix_append _ _) hqSource
    · exact absurd (h.identified _ _ _ _ _ hold' hold ▸ List.prefix_append _ _) hpSource
    · exact h.identified _ _ _ _ _ hold hold'
  · intro p id c hp
    rcases hmoved.origin hp with ⟨rest, _, hold⟩ | ⟨_, _, hold⟩
    · exact h.numbered _ _ _ hold
    · exact h.numbered _ _ _ hold

end Move

/-! ## Moving a file -/

section MoveFile

variable {tree : FileTree} {source target directory : Path} {name : String} {id : Nat}
  {contents : Contents}

theorem get?_moveFile (h : tree.Sound) (hsource : tree.get? source = some (.file id contents))
    (htarget : tree.get? target ≠ some .directory) (hapart : ¬ source <+: target) (p : Path) :
    (tree.moveFile source target).get? p =
      if p = target then some (.file id contents) else if p = source then none
      else tree.get? p := by
  have hbare := h.bare_of_plain htarget
  have hbareSource : tree.Bare source := h.bare_of_plain (by simp [hsource])
  have hmoved := moved_moveFile (by simp [hsource]) hbare hapart
  by_cases hpt : p = target
  · have hthere := hmoved.there []
    rw [List.append_nil, List.append_nil, hsource] at hthere
    rw [if_pos hpt, hpt, hthere]
  by_cases hps : p = source
  · have hgone := hmoved.gone []
    rw [List.append_nil] at hgone
    rw [if_neg hpt, if_pos hps, hps, hgone]
  rw [if_neg hpt, if_neg hps]
  -- neither below the one place nor below the other is anything, before or after
  by_cases htargetBelow : target <+: p
  · obtain ⟨rest, rfl⟩ := htargetBelow
    have hrest : rest ≠ [] := by
      rintro rfl
      simp at hpt
    rw [hmoved.there, hbareSource rest hrest, hbare rest hrest]
  by_cases hsourceBelow : source <+: p
  · obtain ⟨rest, rfl⟩ := hsourceBelow
    have hrest : rest ≠ [] := by
      rintro rfl
      simp at hps
    rw [hmoved.gone, hbareSource rest hrest]
  · exact hmoved.elsewhere p hsourceBelow htargetBelow

theorem moveFile_directory_iff (h : tree.Sound)
    (hsource : tree.get? source = some (.file id contents))
    (htarget : tree.get? target ≠ some .directory) (hapart : ¬ source <+: target) (p : Path) :
    (tree.moveFile source target).get? p = some .directory ↔ tree.get? p = some .directory := by
  rw [get?_moveFile h hsource htarget hapart]
  by_cases hpt : p = target
  · simp [hpt, htarget]
  by_cases hps : p = source
  · have hne : source ≠ target := by
      rintro rfl
      exact hapart (List.prefix_refl _)
    simp [hps, hsource, hne]
  · simp [hpt, hps]

theorem Sound.steady_moveFile (h : tree.Sound)
    (hsource : tree.get? source = some (.file id contents))
    (htarget : tree.get? (directory ++ [name]) ≠ some .directory)
    (hapart : ¬ source <+: directory ++ [name]) (hparent : tree.get? directory = some .directory)
    (hname : ProperName name) : Steady tree (tree.moveFile source (directory ++ [name])) := by
  refine ⟨h.moveFile (by simp [hsource]) (h.bare_of_plain htarget) hapart hparent hname,
    moveFile_directory_iff h hsource htarget hapart, Nat.le_refl _, ?_, rfl, rfl⟩
  intro p i c hget _
  rw [get?_moveFile h hsource htarget hapart] at hget
  split at hget
  · cases hget
    exact ⟨source, _, hsource⟩
  · split at hget
    · cases hget
    · exact ⟨p, c, hget⟩

end MoveFile

end FileTree
end DryKiln
