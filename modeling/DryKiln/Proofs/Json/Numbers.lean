-- Numbers as they are written. Every whole number and every decimal is written as a text that is
-- read as a number, and a whole number that fits a machine word is read as itself.
import DryKiln.Json.Token
import DryKiln.Json.Writer
import Mathlib.Data.List.Basic
import Mathlib.Data.Option.Basic

namespace DryKiln
namespace Json

/-! ## Rows of digits -/

/-- A row of at least one digit. -/
structure Digits (row : List Char) : Prop where
  nonempty : row ≠ []
  digit : ∀ c ∈ row, c.isDigit = true

/-- A text that does not go on with a digit. -/
def Digitless (rest : List Char) : Prop := ∀ c ∈ rest.head?, c.isDigit = false

theorem digits_toDigits (n : Nat) : Digits (Nat.toDigits 10 n) :=
  ⟨Nat.toDigits_ne_nil, fun _ hc => Nat.isDigit_of_mem_toDigits (by decide) (by decide) hc⟩

/-- The digits of a number start with zero only if it is zero. -/
theorem head_toDigits {n : Nat} (h : n ≠ 0) :
    ∃ c rest, Nat.toDigits 10 n = c :: rest ∧ c ≠ '0' := by
  induction n using Nat.strongRecOn with
  | ind n ih =>
    rcases Nat.lt_or_ge n 10 with hlt | hge
    · refine ⟨_, [], Nat.toDigits_of_lt_base hlt, ?_⟩
      rw [ne_eq, Nat.digitChar_eq_zero]
      exact h
    · obtain ⟨c, rest, hfront, hc⟩ := ih (n / 10) (by omega) (by omega)
      exact ⟨c, rest ++ [(n % 10).digitChar],
        by rw [Nat.toDigits_of_base_le (by decide) hge, hfront]; rfl, hc⟩

theorem Digits.takeWhile {row rest : List Char} (h : Digits row) (hrest : Digitless rest) :
    (row ++ rest).takeWhile Char.isDigit = row := by
  rw [List.takeWhile_append_of_pos h.digit]
  cases rest with
  | nil => simp
  | cons c rest => simp [hrest c rfl]

theorem Digits.dropWhile {row rest : List Char} (h : Digits row) (hrest : Digitless rest) :
    (row ++ rest).dropWhile Char.isDigit = rest := by
  rw [List.dropWhile_append_of_pos h.digit]
  cases rest with
  | nil => simp
  | cons c rest => simp [hrest c rfl]

/-- A row of digits that does not start with zero, and a zero alone, are whole parts. -/
theorem isWholePart_cons {c : Char} {rest : List Char} (h : c ≠ '0' ∨ rest = []) :
    isWholePart (c :: rest) = true := by
  by_cases hc : c = '0'
  · obtain rfl : rest = [] := h.resolve_left (not_not_intro hc)
    rw [hc]
    rfl
  · unfold isWholePart
    split
    · contradiction
    · rfl
    · rename_i heq
      obtain ⟨rfl, _⟩ := List.cons.inj heq
      simpa using hc

theorem isWholePart_toDigits (n : Nat) : isWholePart (Nat.toDigits 10 n) = true := by
  by_cases hn : n = 0
  · subst hn
    decide
  · obtain ⟨c, rest, hrow, hc⟩ := head_toDigits hn
    rw [hrow]
    exact isWholePart_cons (.inl hc)

/-! ## Reading the pieces -/

/-- A text with its sign. -/
def signed (negative : Bool) (cs : List Char) : List Char := if negative then '-' :: cs else cs

/-- What is read of a text without its sign. -/
def readSize? (negative : Bool) (cs : List Char) : Option NumberText := do
  let whole := cs.takeWhile Char.isDigit
  guard (isWholePart whole)
  match cs.dropWhile Char.isDigit with
  | '.' :: rest =>
    let fraction := rest.takeWhile Char.isDigit
    guard (fraction ≠ [])
    return ⟨negative, whole, fraction, ← NumberText.ending? (rest.dropWhile Char.isDigit)⟩
  | rest => return ⟨negative, whole, [], ← NumberText.ending? rest⟩

/-- A text and whether a minus sign has been taken off it. -/
def unsigned : List Char → Bool × List Char
  | '-' :: cs => (true, cs)
  | cs => (false, cs)

theorem read?_eq (cs : List Char) :
    NumberText.read? cs = readSize? (unsigned cs).1 (unsigned cs).2 := rfl

theorem read?_minus (cs : List Char) : NumberText.read? ('-' :: cs) = readSize? true cs := rfl

theorem read?_plain {c : Char} (hc : c ≠ '-') (cs : List Char) :
    NumberText.read? (c :: cs) = readSize? false (c :: cs) := by
  have hsign : unsigned (c :: cs) = (false, c :: cs) := by
    unfold unsigned
    split
    · rename_i heq
      exact absurd (List.cons.inj heq).1 hc
    · rfl
  rw [read?_eq, hsign]

theorem read?_signed {negative : Bool} {row rest : List Char} (hrow : Digits row) :
    NumberText.read? (signed negative (row ++ rest)) = readSize? negative (row ++ rest) := by
  cases negative with
  | true => exact read?_minus _
  | false =>
    obtain ⟨c, cs, rfl⟩ := List.exists_cons_of_ne_nil hrow.nonempty
    refine read?_plain ?_ _
    rintro rfl
    exact absurd (hrow.digit '-' List.mem_cons_self) (by decide)

variable {negative : Bool} {whole fraction rest : List Char} {exponent : Option Int}

/-- A number without a point. -/
theorem read?_of_whole (hwhole : Digits whole) (hpart : isWholePart whole = true)
    (hrest : Digitless rest) (hpoint : rest.head? ≠ some '.')
    (hending : NumberText.ending? rest = some exponent) :
    NumberText.read? (signed negative (whole ++ rest)) = some ⟨negative, whole, [], exponent⟩ := by
  rw [read?_signed hwhole, readSize?, hwhole.takeWhile hrest, hwhole.dropWhile hrest, hpart]
  split
  · simp at hpoint
  · simp [hending]

/-- A number with a point. -/
theorem read?_of_fraction (hwhole : Digits whole) (hpart : isWholePart whole = true)
    (hfraction : Digits fraction) (hrest : Digitless rest)
    (hending : NumberText.ending? rest = some exponent) :
    NumberText.read? (signed negative (whole ++ '.' :: (fraction ++ rest))) =
      some ⟨negative, whole, fraction, exponent⟩ := by
  have hpoint : Digitless ('.' :: (fraction ++ rest)) := by
    simp only [Digitless, List.head?_cons, Option.mem_def, Option.some.injEq]
    rintro c rfl
    decide
  rw [read?_signed hwhole, readSize?, hwhole.takeWhile hpoint, hwhole.dropWhile hpoint, hpart]
  simp [hfraction.takeWhile hrest, hfraction.dropWhile hrest, hfraction.nonempty, hending]

theorem digitless_nil : Digitless [] := by simp [Digitless]

/-! ## Whole numbers -/

theorem writeWhole_eq (n : Int) :
    writeWhole n = signed (n < 0) (Nat.toDigits 10 n.natAbs) := by
  by_cases hn : n < 0 <;> simp [writeWhole, signed, hn]

theorem read?_writeWhole (n : Int) :
    NumberText.read? (writeWhole n) = some ⟨n < 0, Nat.toDigits 10 n.natAbs, [], none⟩ := by
  have hread : NumberText.read? (signed (n < 0) (Nat.toDigits 10 n.natAbs ++ [])) = _ :=
    read?_of_whole (digits_toDigits n.natAbs) (isWholePart_toDigits n.natAbs) digitless_nil
      (by simp) rfl
  rwa [List.append_nil, ← writeWhole_eq] at hread

/-- A whole number that fits a machine word is read as itself. -/
theorem number?_writeWhole {n : Int} (h : Numeral.wordRange n = true) :
    number? (writeWhole n) = some (.number (some (.whole n))) := by
  have hsize : (if n < 0 then -(n.natAbs : Int) else n.natAbs) = n := by
    split <;> omega
  have hzero : ¬(n < 0 ∧ (n.natAbs : Int) = 0) := by omega
  have hwhole : NumberText.whole? ⟨n < 0, Nat.toDigits 10 n.natAbs, [], none⟩ = some n := by
    simp only [NumberText.whole?, Nat.ofDigitChars_ten_toDigits, decide_eq_true_eq, hsize]
    exact if_pos ⟨trivial, trivial, h, hzero⟩
  simp [number?, read?_writeWhole, NumberText.numeral?, hwhole]

/-! ## Decimals -/

theorem digits_append {first second : List Char} (hfirst : Digits first)
    (hsecond : ∀ c ∈ second, c.isDigit = true) : Digits (first ++ second) := by
  refine ⟨by simp [hfirst.nonempty], fun c hc => ?_⟩
  rcases List.mem_append.mp hc with hc | hc
  · exact hfirst.digit c hc
  · exact hsecond c hc

theorem digit_of_mem_zeros {n : Nat} {c : Char} (h : c ∈ List.replicate n '0') :
    c.isDigit = true := by
  rw [List.eq_of_mem_replicate h]
  decide

/-- The text without an exponent: digits on both sides of a point. -/
theorem positional_eq (digits : Nat) (exponent : Int) : ∃ whole fraction,
    Decimal.positional true digits exponent = whole ++ '.' :: fraction ∧
      Digits whole ∧ isWholePart whole = true ∧ Digits fraction := by
  have hrow := digits_toDigits digits
  have hzero : Digits ['0'] := ⟨by simp, by simp⟩
  by_cases hexponent : 0 ≤ exponent
  · by_cases hdigits : digits = 0
    · refine ⟨Nat.toDigits 10 digits, ['0'], ?_, hrow, isWholePart_toDigits digits, hzero⟩
      simp [Decimal.positional, hexponent, hdigits]
    · obtain ⟨c, rest, hhead, hc⟩ := head_toDigits hdigits
      refine ⟨Nat.toDigits 10 digits ++ List.replicate exponent.toNat '0', ['0'], ?_,
        digits_append hrow fun c hc => digit_of_mem_zeros hc, ?_, hzero⟩
      · simp [Decimal.positional, hexponent, hdigits]
      · rw [hhead, List.cons_append]
        exact isWholePart_cons (.inl hc)
  · have hplaces : 0 < (-exponent).toNat := by omega
    by_cases hinside : (-exponent).toNat < (Nat.toDigits 10 digits).length
    · have hdigits : digits ≠ 0 := by
        rintro rfl
        rw [show (Nat.toDigits 10 0).length = 1 from rfl] at hinside
        omega
      obtain ⟨c, rest, hhead, hc⟩ := head_toDigits hdigits
      have hfront : (Nat.toDigits 10 digits).length - (-exponent).toNat =
          (rest.length - (-exponent).toNat) + 1 := by
        rw [hhead, List.length_cons] at hinside ⊢
        omega
      refine ⟨(Nat.toDigits 10 digits).take ((Nat.toDigits 10 digits).length - (-exponent).toNat),
        (Nat.toDigits 10 digits).drop ((Nat.toDigits 10 digits).length - (-exponent).toNat),
        ?_, ⟨?_, ?_⟩, ?_, ⟨?_, ?_⟩⟩
      · simp [Decimal.positional, hexponent, hinside]
      · rw [hfront, hhead]
        simp
      · exact fun c hc => hrow.digit c (List.mem_of_mem_take hc)
      · rw [hfront, hhead, List.take_succ_cons]
        exact isWholePart_cons (.inl hc)
      · rw [ne_eq, List.drop_eq_nil_iff]
        omega
      · exact fun c hc => hrow.digit c (List.mem_of_mem_drop hc)
    · refine ⟨['0'], List.replicate ((-exponent).toNat - (Nat.toDigits 10 digits).length) '0' ++
        Nat.toDigits 10 digits, ?_, hzero, rfl, ⟨by simp [hrow.nonempty], fun c hc => ?_⟩⟩
      · simp [Decimal.positional, hexponent, hinside]
      · rcases List.mem_append.mp hc with hc | hc
        · exact digit_of_mem_zeros hc
        · exact hrow.digit c hc

theorem exponent?_of_sign {sign : Char} (hsign : sign = '-' ∨ sign = '+') {row : List Char}
    (hrow : Digits row) : ∃ value, exponent? (sign :: row) = some value := by
  have hall : row.all Char.isDigit = true := List.all_eq_true.mpr hrow.digit
  rcases hsign with rfl | rfl
  · exact ⟨_, by simp [exponent?, hrow.nonempty, hall]; rfl⟩
  · exact ⟨_, by simp [exponent?, hrow.nonempty, hall]; rfl⟩

theorem ending?_of_sign {sign : Char} (hsign : sign = '-' ∨ sign = '+') {row : List Char}
    (hrow : Digits row) : ∃ value, NumberText.ending? ('e' :: sign :: row) = some (some value) := by
  obtain ⟨value, hvalue⟩ := exponent?_of_sign hsign hrow
  exact ⟨value, by simp [NumberText.ending?, hvalue]⟩

/-- The text with an exponent is read as a number. -/
theorem read?_scientific (negative : Bool) (digits : Nat) (exponent : Int) :
    ∃ t, NumberText.read? (signed negative (Decimal.scientific digits exponent)) = some t := by
  have hrow := digits_toDigits digits
  obtain ⟨c, fraction, hhead⟩ := List.exists_cons_of_ne_nil hrow.nonempty
  rw [hhead] at hrow
  have hwhole : Digits [c] := ⟨by simp, by simpa using hrow.digit c List.mem_cons_self⟩
  have hpart : isWholePart [c] = true := isWholePart_cons (.inr rfl)
  unfold Decimal.scientific
  simp only [hhead, List.take_succ_cons, List.take_zero, List.drop_succ_cons, List.drop_zero]
  generalize exponent + ((c :: fraction).length - 1 : Nat) = leading
  have hsign : (if leading < 0 then '-' else '+') = '-' ∨ (if leading < 0 then '-' else '+') = '+' := by
    split <;> simp
  obtain ⟨value, hending⟩ := ending?_of_sign hsign (digits_toDigits leading.natAbs)
  have hrest : Digitless ('e' :: (if leading < 0 then '-' else '+') ::
      Nat.toDigits 10 leading.natAbs) := by
    simp only [Digitless, List.head?_cons, Option.mem_def, Option.some.injEq]
    rintro c rfl
    decide
  by_cases hfraction : fraction = []
  · rw [if_pos hfraction, List.append_nil]
    exact ⟨_, read?_of_whole hwhole hpart hrest (by simp) hending⟩
  · rw [if_neg hfraction, List.append_assoc, List.cons_append]
    exact ⟨_, read?_of_fraction hwhole hpart
      ⟨hfraction, fun c hc => hrow.digit c (List.mem_cons_of_mem _ hc)⟩ hrest hending⟩

theorem signed_ite (negative plain : Bool) (first second : List Char) :
    signed negative (if plain then first else second) = signed negative first ∨
      signed negative (if plain then first else second) = signed negative second := by
  cases plain <;> simp

theorem write_eq (layout : Decimal.Layout) (d : Decimal) :
    d.write layout = signed d.negative (Decimal.positional layout.pointZero d.digits d.exponent) ∨
      d.write layout = signed d.negative (Decimal.scientific d.digits d.exponent) :=
  signed_ite _ _ _ _

/-- Every decimal is written as a text that is read as a number. -/
theorem read?_write (d : Decimal) : ∃ t, NumberText.read? (d.write .document) = some t := by
  rcases write_eq .document d with hwrite | hwrite
  · obtain ⟨whole, fraction, hpositional, hwhole, hpart, hfraction⟩ :=
      positional_eq d.digits d.exponent
    have hread : NumberText.read? (signed d.negative (whole ++ '.' :: (fraction ++ []))) = _ :=
      read?_of_fraction hwhole hpart hfraction digitless_nil rfl
    rw [hwrite, show Decimal.Layout.document.pointZero = true from rfl, hpositional]
    rw [List.append_nil] at hread
    exact ⟨_, hread⟩
  · rw [hwrite]
    exact read?_scientific d.negative d.digits d.exponent

end Json
end DryKiln
