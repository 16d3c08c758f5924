-- The tokens of a written document. The scan of a text can be told apart from the reader: it gives
-- a row of tokens, and the reader takes them one by one. The text of a document, in either style,
-- gives the tokens of the document and nothing else.
import DryKiln.Json.Reader
import DryKiln.Proofs.Json.Numbers
import Mathlib.Data.List.TakeWhile
import Mathlib.Data.Option.Basic

namespace DryKiln
namespace Json

/-! ## Scanning before reading -/

/-- All tokens of a text, from what the scan is in the middle of. -/
def Scan.tokens? (scan : Scan) : List Char → Option (List Token)
  | [] => scan.finish
  | c :: cs => do
    let (next, tokens) ← scan.step c
    let rest ← next.tokens? cs
    return tokens ++ rest

namespace Reader

theorem steps_cons (reader : Reader) (token : Token) (tokens : List Token) :
    reader.steps (token :: tokens) = (reader.step token).bind fun next => next.steps tokens := rfl

theorem steps_append (reader : Reader) (first second : List Token) :
    reader.steps (first ++ second) = (reader.steps first).bind fun next => next.steps second := by
  rw [steps, List.foldlM_append]
  rfl

/-- What is read from a row of tokens. -/
def ofTokens? (reader : Reader) (tokens : List Token) : Option Document :=
  (reader.steps tokens).bind done?

end Reader

/-- The scan hands each token on as it completes; it may as well hand on all of them at the end. -/
theorem feed_eq_tokens? (cs : List Char) (scan : Scan) (reader : Reader) :
    (do
      let (scan, reader) ← cs.foldlM feed (scan, reader)
      let reader ← reader.steps (← scan.finish)
      reader.done?) = (scan.tokens? cs).bind reader.ofTokens? := by
  induction cs generalizing scan reader with
  | nil => rfl
  | cons c cs ih =>
    cases hstep : scan.step c with
    | none => simp [List.foldlM_cons, feed, Scan.tokens?, hstep]
    | some result =>
      obtain ⟨next, tokens⟩ := result
      cases hsteps : reader.steps tokens with
      | none =>
        cases hrest : next.tokens? cs with
        | none => simp [List.foldlM_cons, feed, Scan.tokens?, hstep, hsteps, hrest]
        | some rest =>
          simp [List.foldlM_cons, feed, Scan.tokens?, hstep, hsteps, hrest, Reader.ofTokens?,
            Reader.steps_append]
      | some after =>
        have hrest := ih next after
        simp only [List.foldlM_cons, feed, hstep, hsteps, Option.bind_eq_bind, Option.bind_some,
          Option.pure_def] at hrest ⊢
        rw [hrest]
        cases hmore : next.tokens? cs with
        | none => simp [Scan.tokens?, hstep, hmore]
        | some more =>
          simp [Scan.tokens?, hstep, hmore, Reader.ofTokens?, Reader.steps_append, hsteps]

theorem ofChars?_eq (cs : List Char) :
    ofChars? cs = (Scan.ground.tokens? cs).bind (⟨.value, []⟩ : Reader).ofTokens? :=
  feed_eq_tokens? cs .ground ⟨.value, []⟩

/-! ## One token -/

/-- The tokens of a text that begins with some. -/
def after (tokens : List Token) (rest : List Char) : Option (List Token) :=
  (Scan.ground.tokens? rest).map (tokens ++ ·)

theorem after_append (first second : List Token) (rest : List Char) :
    (after second rest).map (first ++ ·) = after (first ++ second) rest := by
  simp [after, Function.comp_def, List.append_assoc]

theorem after_cons (token : Token) (tokens : List Token) (rest : List Char) :
    (after tokens rest).map (token :: ·) = after (token :: tokens) rest :=
  after_append [token] tokens rest

theorem tokens?_cons {scan next : Scan} {c : Char} {tokens : List Token}
    (h : scan.step c = some (next, tokens)) (cs : List Char) :
    scan.tokens? (c :: cs) = (next.tokens? cs).map (tokens ++ ·) := by
  cases hrest : next.tokens? cs <;> simp [Scan.tokens?, h, hrest]

theorem tokens?_of_stuck {scan : Scan} {c : Char} (h : scan.step c = none) (cs : List Char) :
    scan.tokens? (c :: cs) = none := by
  simp [Scan.tokens?, h]

theorem tokens?_within {scan next : Scan} {c : Char} (h : scan.step c = some (next, []))
    (cs : List Char) : scan.tokens? (c :: cs) = next.tokens? cs := by
  rw [tokens?_cons h]
  simp

theorem tokens?_backslash (taken : List Piece) (cs : List Char) :
    (Scan.text taken).tokens? ('\\' :: cs) = (Scan.escape taken).tokens? cs :=
  tokens?_within rfl cs

theorem tokens?_space {c : Char} (h : isSpace c = true) (cs : List Char) :
    Scan.ground.tokens? (c :: cs) = Scan.ground.tokens? cs := by
  refine tokens?_within ?_ cs
  simp [Scan.step, Scan.start, h]

theorem tokens?_mark {c : Char} {token : Token}
    (h : Scan.start c = some (.ground, [token])) (cs : List Char) :
    Scan.ground.tokens? (c :: cs) = after [token] cs :=
  tokens?_cons (show Scan.ground.step c = _ from h) cs

theorem tokens?_line (style : Style) (depth : Nat) (cs : List Char) :
    Scan.ground.tokens? (style.line depth ++ cs) = Scan.ground.tokens? cs := by
  cases style with
  | compact => rfl
  | indented =>
    rw [Style.line, List.cons_append, tokens?_space rfl]
    induction 2 * depth with
    | zero => rfl
    | succ n ih =>
      rw [List.replicate_succ, List.cons_append, tokens?_space rfl]
      exact ih

theorem tokens?_colon (style : Style) (cs : List Char) :
    Scan.ground.tokens? (style.colon ++ cs) = after [.colon] cs := by
  cases style with
  | compact => exact tokens?_mark rfl cs
  | indented =>
    rw [Style.colon, List.cons_append, tokens?_mark rfl, List.cons_append, after,
      tokens?_space rfl]
    rfl

/-! ## Numbers and words -/

/-- A text that neither goes on with a number nor with a word. -/
def Ends (rest : List Char) : Prop :=
  ∀ c ∈ rest.head?, isNumberChar c = false ∧ c.isAlpha = false

/-- A scan in the middle of a number or of a word, which the first character that ends both will
complete. -/
structure Pending (scan : Scan) (token? : Option Token) : Prop where
  finish : scan.finish = token?.map ([·])
  step : ∀ c, isNumberChar c = false → c.isAlpha = false → scan.step c = do
    let token ← token?
    let (next, tokens) ← Scan.start c
    return (next, token :: tokens)

theorem Pending.tokens? {scan : Scan} {token : Token} (h : Pending scan (some token))
    {rest : List Char} (hrest : Ends rest) : scan.tokens? rest = after [token] rest := by
  cases rest with
  | nil => exact h.finish
  | cons c cs =>
    obtain ⟨hnumber, halpha⟩ := hrest c rfl
    have hstep := h.step c hnumber halpha
    cases hstart : Scan.start c with
    | none =>
      rw [hstart] at hstep
      rw [tokens?_of_stuck hstep, after,
        tokens?_of_stuck (show Scan.ground.step c = none from hstart)]
      rfl
    | some result =>
      obtain ⟨next, tokens⟩ := result
      simp only [hstart, Option.bind_eq_bind, Option.bind_some, Option.pure_def] at hstep
      rw [tokens?_cons hstep, after, tokens?_cons (show Scan.ground.step c = _ from hstart)]
      simp [Function.comp_def]

/-- A scan that collects the characters of a number or of a word, which is then one token. -/
structure Collects (scan : List Char → Scan) (belongs : Char → Bool)
    (token? : List Char → Option Token) : Prop where
  goesOn : ∀ taken c, belongs c = true → (scan taken).step c = some (scan (c :: taken), [])
  pending : ∀ taken, Pending (scan taken) (token? taken.reverse)

theorem collects_number : Collects .number isNumberChar number? where
  goesOn taken c hc := by rw [Scan.step, if_pos hc]
  pending taken := ⟨rfl, fun c hnumber _ => by simp [Scan.step, hnumber]⟩

theorem collects_word : Collects .word Char.isAlpha word? where
  goesOn taken c hc := by rw [Scan.step, if_pos hc]
  pending taken := ⟨rfl, fun c _ halpha => by simp [Scan.step, halpha]⟩

namespace Collects

variable {scan : List Char → Scan} {belongs : Char → Bool} {token? : List Char → Option Token}

theorem row (h : Collects scan belongs token?) (taken rest : List Char) {row : List Char}
    (hrow : ∀ c ∈ row, belongs c = true) :
    (scan taken).tokens? (row ++ rest) = (scan (row.reverse ++ taken)).tokens? rest := by
  induction row generalizing taken with
  | nil => rfl
  | cons c row ih =>
    obtain ⟨hc, hmore⟩ := List.forall_mem_cons.mp hrow
    rw [List.cons_append, tokens?_within (h.goesOn taken c hc), ih (c :: taken) hmore]
    simp

/-- What has been collected is one token. -/
theorem tokens? (h : Collects scan belongs token?) {c : Char} {more rest : List Char}
    {token : Token} (hstart : Scan.start c = some (scan [c], []))
    (hmore : ∀ c ∈ more, belongs c = true) (htoken : token? (c :: more) = some token)
    (hrest : Ends rest) : Scan.ground.tokens? (c :: more ++ rest) = after [token] rest := by
  have hpending := h.pending (more.reverse ++ [c])
  rw [List.reverse_append, List.reverse_reverse, List.reverse_singleton, List.singleton_append,
    htoken] at hpending
  rw [List.cons_append, tokens?_within (show Scan.ground.step c = _ from hstart),
    h.row [c] rest hmore]
  exact hpending.tokens? hrest

end Collects

theorem isNumberChar_of_isDigit {c : Char} (h : c.isDigit = true) : isNumberChar c = true := by
  simp [isNumberChar, h]

theorem numberChar_of_exponent? {cs : List Char} {value : Int} (h : exponent? cs = some value) :
    ∀ c ∈ cs, isNumberChar c = true := by
  have hrow : ∀ row : List Char, row.all Char.isDigit = true → ∀ c ∈ row, isNumberChar c = true :=
    fun row hall c hc => isNumberChar_of_isDigit (List.all_eq_true.mp hall c hc)
  unfold exponent? at h
  split at h
  rename_i negative row heq
  by_cases hdigits : row ≠ [] ∧ row.all Char.isDigit = true
  · split at heq
    · cases heq
      exact List.forall_mem_cons.mpr ⟨rfl, hrow _ hdigits.2⟩
    · cases heq
      exact List.forall_mem_cons.mpr ⟨rfl, hrow _ hdigits.2⟩
    · cases heq
      exact hrow _ hdigits.2
  · rw [if_neg hdigits] at h
    cases h

theorem numberChar_of_ending? {cs : List Char} {exponent : Option Int}
    (h : NumberText.ending? cs = some exponent) : ∀ c ∈ cs, isNumberChar c = true := by
  unfold NumberText.ending? at h
  split at h
  · simp
  · rename_i mark rest
    split at h
    · rename_i hmark
      obtain ⟨value, hvalue, _⟩ := Option.map_eq_some_iff.mp h
      refine List.forall_mem_cons.mpr ⟨?_, numberChar_of_exponent? hvalue⟩
      rcases Bool.or_eq_true_iff.mp hmark with hmark | hmark <;>
      · rw [beq_iff_eq] at hmark
        rw [hmark]
        rfl
    · cases h

theorem mem_takeWhile_or_dropWhile {p : Char → Bool} {cs : List Char} {c : Char} (h : c ∈ cs) :
    c ∈ cs.takeWhile p ∨ c ∈ cs.dropWhile p := by
  rw [← List.takeWhile_append_dropWhile (p := p) (l := cs)] at h
  exact List.mem_append.mp h

theorem isNumberChar_of_mem_takeWhile {cs : List Char} {c : Char}
    (h : c ∈ cs.takeWhile Char.isDigit) : isNumberChar c = true :=
  isNumberChar_of_isDigit (List.mem_takeWhile_imp h)

/-- What is read as a number without its sign starts with a digit and is all of one piece. -/
theorem numberChar_of_readSize? {negative : Bool} {cs : List Char} {t : NumberText}
    (h : readSize? negative cs = some t) :
    (∃ c rest, cs = c :: rest ∧ c.isDigit = true) ∧ ∀ c ∈ cs, isNumberChar c = true := by
  simp only [readSize?, Option.bind_eq_bind, Option.pure_def, Option.bind_eq_some_iff,
    Option.guard_eq_some'] at h
  obtain ⟨_, hpart, hrest⟩ := h
  refine ⟨?_, fun c hc => ?_⟩
  · cases cs with
    | nil => simp [isWholePart] at hpart
    | cons c rest =>
      refine ⟨c, rest, rfl, ?_⟩
      by_contra hc
      simp [hc, isWholePart] at hpart
  · rcases mem_takeWhile_or_dropWhile (p := Char.isDigit) hc with hc | hc
    · exact isNumberChar_of_mem_takeWhile hc
    split at hrest
    · rename_i rest hpoint
      simp only [Option.bind_eq_some_iff] at hrest
      obtain ⟨_, _, exponent, hending, _⟩ := hrest
      rw [hpoint] at hc
      rcases List.mem_cons.mp hc with rfl | hc
      · rfl
      rcases mem_takeWhile_or_dropWhile (p := Char.isDigit) hc with hc | hc
      · exact isNumberChar_of_mem_takeWhile hc
      · exact numberChar_of_ending? hending c hc
    · rw [Option.bind_eq_some_iff] at hrest
      obtain ⟨exponent, hending, _⟩ := hrest
      exact numberChar_of_ending? hending c hc

/-- What is read as a number starts as a number does and is all of one piece. -/
theorem numberChar_of_read? {cs : List Char} {t : NumberText} (h : NumberText.read? cs = some t) :
    (∃ c rest, cs = c :: rest ∧ (c.isDigit = true ∨ c = '-')) ∧
      ∀ c ∈ cs, isNumberChar c = true := by
  cases cs with
  | nil => cases h
  | cons c rest =>
    by_cases hc : c = '-'
    · subst hc
      rw [read?_minus] at h
      exact ⟨⟨_, _, rfl, .inr rfl⟩,
        List.forall_mem_cons.mpr ⟨rfl, (numberChar_of_readSize? h).2⟩⟩
    · rw [read?_plain hc] at h
      obtain ⟨⟨first, more, hcs, hfirst⟩, hall⟩ := numberChar_of_readSize? h
      exact ⟨⟨first, more, hcs, .inl hfirst⟩, hall⟩

theorem start_of_number {c : Char} (h : c.isDigit = true ∨ c = '-') :
    Scan.start c = some (.number [c], []) := by
  have hspace : isSpace c = false := by
    rcases h with h | rfl
    · rw [← Bool.not_eq_true]
      intro hspace
      simp only [isSpace, Bool.or_eq_true, beq_iff_eq] at hspace
      rcases hspace with ((rfl | rfl) | rfl) | rfl <;> exact absurd h (by decide)
    · rfl
  have hquote : c ≠ '"' := by
    rcases h with h | rfl
    · rintro rfl
      exact absurd h (by decide)
    · decide
  have hnumber : (c.isDigit || c == '-') = true := by
    simpa using h
  simp [Scan.start, hspace, hquote, hnumber]

/-- A text that is read as a number is one token. -/
theorem tokens?_number {row rest : List Char} {t : NumberText} (h : NumberText.read? row = some t)
    (hrest : Ends rest) :
    Scan.ground.tokens? (row ++ rest) = after [.number t.numeral?] rest := by
  obtain ⟨⟨c, more, rfl, hc⟩, hall⟩ := numberChar_of_read? h
  have htoken : number? (c :: more) = some (.number t.numeral?) := by simp [number?, h]
  exact collects_number.tokens? (start_of_number hc) (List.forall_mem_cons.mp hall).2 htoken hrest

/-- A word is one token. -/
theorem tokens?_word {c : Char} {more rest : List Char} {token : Token}
    (hstart : Scan.start c = some (.word [c], [])) (hmore : more.all Char.isAlpha = true)
    (hword : word? (c :: more) = some token) (hrest : Ends rest) :
    Scan.ground.tokens? (c :: more ++ rest) = after [token] rest :=
  collects_word.tokens? hstart (List.all_eq_true.mp hmore) hword hrest

/-! ## Quoted texts -/

theorem hexValue?_hexDigit : ∀ n < 16, hexValue? (hexDigit n) = some n := by decide

/-- The four digits of a control character. -/
theorem tokens?_code {c : Char} (h : c.toNat < 0x20) (taken : List Piece) (cs : List Char) :
    (Scan.code taken 0 4).tokens?
        ('0' :: '0' :: hexDigit (c.toNat / 16) :: hexDigit (c.toNat % 16) :: cs) =
      (Scan.text (.char c :: taken)).tokens? cs := by
  have hhigh : (Scan.code taken 0 2).step (hexDigit (c.toNat / 16)) =
      some (.code taken (c.toNat / 16) 1, []) := by
    simp [Scan.step, hexValue?_hexDigit (c.toNat / 16) (by omega)]
  have hpiece : codePiece c.toNat = .char c := by
    have hlow : isHighHalf c.toNat = false ∧ isLowHalf c.toNat = false := by
      simp only [isHighHalf, isLowHalf, Bool.and_eq_false_iff, decide_eq_false_iff_not]
      omega
    simp [codePiece, hlow]
  have hlow : (Scan.code taken (c.toNat / 16) 1).step (hexDigit (c.toNat % 16)) =
      some (.text (.char c :: taken), []) := by
    simp [Scan.step, hexValue?_hexDigit (c.toNat % 16) (by omega), Nat.div_add_mod, hpiece]
  have hzero : ∀ left, 1 < left → (Scan.code taken 0 left).step '0' =
      some (.code taken 0 (left - 1), []) := by
    intro left hleft
    simp [Scan.step, show hexValue? '0' = some 0 from rfl,
      Nat.not_le.mpr hleft]
  rw [tokens?_within (hzero 4 (by decide)), tokens?_within (hzero 3 (by decide)),
    tokens?_within hhigh, tokens?_within hlow]

/-- A character as it is written inside quotes is taken as the character. -/
theorem tokens?_escape (c : Char) (taken : List Piece) (cs : List Char) :
    (Scan.text taken).tokens? (escape c ++ cs) = (Scan.text (.char c :: taken)).tokens? cs := by
  have hletter : ∀ letter plain, unescape? letter = some plain → letter ≠ 'u' →
      (Scan.text taken).tokens? ('\\' :: letter :: cs) =
        (Scan.text (.char plain :: taken)).tokens? cs := by
    intro letter plain hplain hu
    rw [tokens?_backslash]
    refine tokens?_within ?_ cs
    simp [Scan.step, hu, hplain]
  unfold escape
  split
  · rename_i h
    exact h ▸ hletter '"' '"' rfl (by decide)
  split
  · rename_i h
    exact h ▸ hletter '\\' '\\' rfl (by decide)
  split
  · rename_i h
    exact h ▸ hletter 'b' '\x08' rfl (by decide)
  split
  · rename_i h
    exact h ▸ hletter 'f' '\x0c' rfl (by decide)
  split
  · rename_i h
    exact h ▸ hletter 'n' '\n' rfl (by decide)
  split
  · rename_i h
    exact h ▸ hletter 'r' '\r' rfl (by decide)
  split
  · rename_i h
    exact h ▸ hletter 't' '\t' rfl (by decide)
  rename_i hquote hbackslash _ _ _ _ _
  split
  · rename_i hcontrol
    simp only [List.cons_append, List.nil_append]
    have hnumbered : (Scan.escape taken).step 'u' = some (.code taken 0 4, []) := rfl
    rw [tokens?_backslash, tokens?_within hnumbered, tokens?_code hcontrol]
  · rename_i hcontrol
    refine tokens?_within ?_ cs
    simp [Scan.step, hquote, hbackslash, hcontrol]

theorem tokens?_text (row rest : List Char) (taken : List Piece) :
    (Scan.text taken).tokens? (row.flatMap escape ++ '"' :: rest) =
      after [quoted ((row.map Piece.char).reverse ++ taken)] rest := by
  induction row generalizing taken with
  | nil =>
    have hquote : (Scan.text taken).step '"' = some (.ground, [quoted taken]) := rfl
    rw [List.flatMap_nil, List.nil_append, tokens?_cons hquote]
    rfl
  | cons c row ih =>
    rw [List.flatMap_cons, List.append_assoc, tokens?_escape, ih]
    simp

theorem pairHalves_chars (row : List Char) : pairHalves (row.map Piece.char) = some row := by
  induction row with
  | nil => rfl
  | cons c row ih => simp [pairHalves, ih]

/-- A quoted text is one token. -/
theorem tokens?_quote (s : String) (rest : List Char) :
    Scan.ground.tokens? (quote s ++ rest) = after [.text (some s)] rest := by
  rw [quote, List.cons_append, List.cons_append, List.append_assoc, List.singleton_append,
    tokens?_within (show Scan.ground.step '"' = some (.text [], []) from rfl), tokens?_text]
  simp [quoted, pairHalves_chars]

end Json
end DryKiln
