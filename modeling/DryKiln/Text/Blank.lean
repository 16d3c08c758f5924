/-!
Blank characters: those with the White_Space property of Unicode. Names are trimmed of them.
-/

namespace DryKiln

/-- The ranges of code points with the White_Space property, ascending and apart. -/
def blankRanges : List (Nat × Nat) :=
  [(0x09, 0x0D), (0x20, 0x20), (0x85, 0x85), (0xA0, 0xA0), (0x1680, 0x1680), (0x2000, 0x200A),
    (0x2028, 0x2029), (0x202F, 0x202F), (0x205F, 0x205F), (0x3000, 0x3000)]

/-- A character with the White_Space property. -/
def isBlank (c : Char) : Bool := blankRanges.any fun range => range.1 ≤ c.toNat && c.toNat ≤ range.2

def trimBlank (cs : List Char) : List Char :=
  ((cs.dropWhile isBlank).reverse.dropWhile isBlank).reverse

theorem isBlank_of_isWhitespace (c : Char) (h : c.isWhitespace = true) : isBlank c = true := by
  simp only [Char.isWhitespace, Bool.or_eq_true, decide_eq_true_eq] at h
  rcases h with ((h | h) | h) | h <;> subst h <;> decide

/-- Nothing is left of a text exactly when all of it is blank. -/
theorem trimBlank_eq_nil_iff (cs : List Char) : trimBlank cs = [] ↔ ∀ c ∈ cs, isBlank c = true := by
  have drop_nil : ∀ l : List Char, l.dropWhile isBlank = [] ↔ ∀ c ∈ l, isBlank c = true := by
    intro l
    induction l with
    | nil => simp
    | cons c l ih => by_cases hc : isBlank c = true <;> simp [hc, ih]
  constructor
  · intro h
    have h1 : ∀ c ∈ cs.dropWhile isBlank, isBlank c = true := by
      have := (drop_nil _).1 (List.reverse_eq_nil_iff.1 h)
      simpa using this
    rw [← drop_nil]
    match hd : cs.dropWhile isBlank with
    | [] => rfl
    | c :: l =>
      have hne : cs.dropWhile isBlank ≠ [] := by simp [hd]
      have hhead := List.head_dropWhile_not isBlank hne
      have := h1 _ (List.head_mem hne)
      simp_all
  · intro h
    simp [trimBlank, (drop_nil cs).2 h]

end DryKiln
