-- What is read of a written document. The text of a document, in either style, is well formed, and
-- it is read as the document itself, but for what its numbers are read as.
import DryKiln.Proofs.Json.Tokens

namespace DryKiln
namespace Json

/-! ## The tokens of a document -/

/-- The token of a number; what is no decimal is written as null. -/
def numberToken (n : Numeral) : Token := (number? (writeNumeral n)).getD .null

mutual

/-- The tokens of a document. -/
def tokensOf : Document → List Token
  | .null => [.null]
  | .flag value => [.flag value]
  | .number value => [numberToken value]
  | .text value => [.text (some value)]
  | .list [] => [.beginList, .endList]
  | .list (item :: items) => .beginList :: (tokensOf item ++ itemTokens items ++ [.endList])
  | .record [] => [.beginRecord, .endRecord]
  | .record ((key, value) :: fields) =>
    .beginRecord :: .text (some key) :: .colon ::
      (tokensOf value ++ fieldTokens fields ++ [.endRecord])
  | .other => [.null]
  | .invalid => [.null]

/-- The tokens of the items after the first. -/
def itemTokens : List Document → List Token
  | [] => []
  | item :: items => .comma :: (tokensOf item ++ itemTokens items)

/-- The tokens of the fields after the first. -/
def fieldTokens : List (String × Document) → List Token
  | [] => []
  | (key, value) :: fields =>
    .comma :: .text (some key) :: .colon :: (tokensOf value ++ fieldTokens fields)

end

theorem ends_nil : Ends [] := by simp [Ends]

theorem ends_cons {c : Char} (h : isNumberChar c = false ∧ c.isAlpha = false) (rest : List Char) :
    Ends (c :: rest) := by
  intro first hfirst
  obtain rfl : c = first := by simpa using hfirst
  exact h

theorem ends_line (style : Style) (depth : Nat) {rest : List Char} (h : Ends rest) :
    Ends (style.line depth ++ rest) := by
  cases style with
  | compact => exact h
  | indented => exact ends_cons (by decide) _

theorem ends_items (style : Style) (depth : Nat) (items : List Document) {rest : List Char}
    (h : Ends rest) : Ends (writeItems style depth items ++ rest) := by
  cases items with
  | nil => exact h
  | cons item items => exact ends_cons (by decide) _

theorem ends_fields (style : Style) (depth : Nat) (fields : List (String × Document))
    {rest : List Char} (h : Ends rest) : Ends (writeFields style depth fields ++ rest) := by
  cases fields with
  | nil => exact h
  | cons field fields => exact ends_cons (by decide) _

section Texts

variable {rest : List Char}

theorem tokens?_null (h : Ends rest) :
    Scan.ground.tokens? ("null".toList ++ rest) = after [.null] rest :=
  tokens?_word rfl rfl rfl h

theorem tokens?_flag (value : Bool) (h : Ends rest) :
    Scan.ground.tokens? ((if value then "true".toList else "false".toList) ++ rest) =
      after [.flag value] rest := by
  cases value with
  | false => exact tokens?_word rfl rfl rfl h
  | true => exact tokens?_word rfl rfl rfl h

theorem tokens?_numeral (n : Numeral) (h : Ends rest) :
    Scan.ground.tokens? (writeNumeral n ++ rest) = after [numberToken n] rest := by
  cases n with
  | whole n =>
    have hread := read?_writeWhole n
    rw [numberToken, number?, writeNumeral, hread]
    exact tokens?_number hread h
  | scaled d =>
    obtain ⟨t, hread⟩ := read?_write d
    rw [numberToken, number?, writeNumeral, hread]
    exact tokens?_number hread h
  | infinite negative => exact tokens?_null h
  | notANumber => exact tokens?_null h

end Texts

mutual

theorem tokens?_write (style : Style) (depth : Nat) (d : Document) {rest : List Char}
    (h : Ends rest) :
    Scan.ground.tokens? (write style depth d ++ rest) = after (tokensOf d) rest := by
  cases d with
  | null => exact tokens?_null h
  | flag value => exact tokens?_flag value h
  | number value => exact tokens?_numeral value h
  | text value => exact tokens?_quote value rest
  | list items =>
    cases items with
    | nil =>
      rw [write, List.cons_append, tokens?_mark rfl, after, List.cons_append, tokens?_mark rfl,
        List.nil_append, after_append]
      rfl
    | cons item items =>
      have hclose : Ends (style.line depth ++ ']' :: rest) :=
        ends_line style depth (ends_cons (by decide) rest)
      simp only [write, List.cons_append, List.append_assoc, List.nil_append]
      rw [tokens?_mark rfl, after, tokens?_line, tokens?_write style (depth + 1) item
        (ends_items style (depth + 1) items hclose)]
      rw [after, tokens?_items style (depth + 1) items hclose, after, tokens?_line,
        tokens?_mark rfl]
      simp only [after_append, after_cons, tokensOf, List.cons_append, List.append_assoc, List.nil_append]
  | record fields =>
    cases fields with
    | nil =>
      rw [write, List.cons_append, tokens?_mark rfl, after, List.cons_append, tokens?_mark rfl,
        List.nil_append, after_append]
      rfl
    | cons field fields =>
      obtain ⟨key, value⟩ := field
      have hclose : Ends (style.line depth ++ '\x7d' :: rest) :=
        ends_line style depth (ends_cons (by decide) rest)
      simp only [write, List.cons_append, List.append_assoc, List.nil_append]
      rw [tokens?_mark rfl, after, tokens?_line, tokens?_quote, after, tokens?_colon, after,
        tokens?_write style (depth + 1) value (ends_fields style (depth + 1) fields hclose)]
      rw [after, tokens?_fields style (depth + 1) fields hclose, after, tokens?_line,
        tokens?_mark rfl]
      simp only [after_append, after_cons, tokensOf, List.cons_append, List.append_assoc, List.nil_append]
  | other => exact tokens?_null h
  | invalid => exact tokens?_null h

theorem tokens?_items (style : Style) (depth : Nat) (items : List Document) {rest : List Char}
    (h : Ends rest) :
    Scan.ground.tokens? (writeItems style depth items ++ rest) = after (itemTokens items) rest := by
  cases items with
  | nil => simp [writeItems, itemTokens, after]
  | cons item items =>
    simp only [writeItems, List.cons_append, List.append_assoc]
    rw [tokens?_mark rfl, after, tokens?_line, tokens?_write style depth item
      (ends_items style depth items h), after, tokens?_items style depth items h]
    simp only [after_append, after_cons, itemTokens, List.cons_append, List.nil_append]

theorem tokens?_fields (style : Style) (depth : Nat) (fields : List (String × Document))
    {rest : List Char} (h : Ends rest) :
    Scan.ground.tokens? (writeFields style depth fields ++ rest) =
      after (fieldTokens fields) rest := by
  cases fields with
  | nil => simp [writeFields, fieldTokens, after]
  | cons field fields =>
    obtain ⟨key, value⟩ := field
    simp only [writeFields, List.cons_append, List.append_assoc]
    rw [tokens?_mark rfl, after, tokens?_line, tokens?_quote, after, tokens?_colon, after,
      tokens?_write style depth value (ends_fields style depth fields h), after,
      tokens?_fields style depth fields h]
    simp only [after_append, after_cons, fieldTokens, List.cons_append, List.nil_append]

end

/-- The text of a document gives its tokens. -/
theorem tokens?_text_eq (style : Style) (d : Document) :
    Scan.ground.tokens? (text style d).toList = some (tokensOf d) := by
  have hwrite := tokens?_write style 0 d ends_nil
  rw [List.append_nil] at hwrite
  rw [text, String.toList_ofList, hwrite]
  simp [after, Scan.tokens?, Scan.finish]

/-! ## Reading the tokens -/

/-- What a number is read as. -/
def rereadNumeral (n : Numeral) : Document :=
  match NumberText.read? (writeNumeral n) with
  | some t => t.numeral?.elim .invalid .number
  | none => .null

mutual

/-- What a written document is read as. -/
def reread : Document → Document
  | .number value => rereadNumeral value
  | .list items => .list (rereadItems items)
  | .record fields => .record (rereadFields fields)
  | .null => .null
  | .flag value => .flag value
  | .text value => .text value
  | .other => .null
  | .invalid => .null

def rereadItems : List Document → List Document
  | [] => []
  | item :: items => reread item :: rereadItems items

def rereadFields : List (String × Document) → List (String × Document)
  | [] => []
  | (key, value) :: fields => (key, reread value) :: rereadFields fields

end

theorem rereadItems_eq (items : List Document) : rereadItems items = items.map reread := by
  induction items with
  | nil => rfl
  | cons item items ih => rw [rereadItems, ih, List.map_cons]

theorem rereadFields_eq (fields : List (String × Document)) :
    rereadFields fields = fields.map fun field => (field.1, reread field.2) := by
  induction fields with
  | nil => rfl
  | cons field fields ih => rw [rereadFields, ih, List.map_cons]

namespace Reader

theorem startValue_numberToken (n : Numeral) (stack : List Frame) :
    startValue stack (numberToken n) = some (place (rereadNumeral n) stack) := by
  unfold numberToken rereadNumeral number?
  cases NumberText.read? (writeNumeral n) with
  | none => rfl
  | some t =>
    rw [Option.map_some, Option.getD_some]
    cases hvalue : t.numeral? with
    | none => simp [startValue, hvalue]
    | some value => simp [startValue, hvalue]

theorem numberToken_ne_endList (n : Numeral) : numberToken n ≠ .endList := by
  unfold numberToken number?
  cases NumberText.read? (writeNumeral n) <;> simp

/-- The first token of a value is not the end of a list. -/
theorem tokensOf_eq_cons (d : Document) :
    ∃ token rest, tokensOf d = token :: rest ∧ token ≠ .endList := by
  cases d with
  | number value => exact ⟨_, _, rfl, numberToken_ne_endList value⟩
  | list items => cases items <;> exact ⟨_, _, rfl, by decide⟩
  | record fields => cases fields <;> exact ⟨_, _, rfl, by decide⟩
  | flag value => exact ⟨_, _, rfl, by simp⟩
  | text value => exact ⟨_, _, rfl, by simp⟩
  | _ => exact ⟨_, _, rfl, by decide⟩

/-- Where a list may end, a value may begin. -/
theorem steps_valueOrEndList (d : Document) (stack : List Frame) (rest : List Token) :
    (⟨.valueOrEndList, stack⟩ : Reader).steps (tokensOf d ++ rest) =
      (⟨.value, stack⟩ : Reader).steps (tokensOf d ++ rest) := by
  obtain ⟨token, more, htokens, hne⟩ := tokensOf_eq_cons d
  rw [htokens, List.cons_append, steps_cons, steps_cons]
  simp [step, hne]

/-- The fields of a record, as its frame keeps them. -/
def framed (fields : List (String × Document)) : List (Option String × Document) :=
  (fields.map fun field => (some field.1, field.2)).reverse

theorem framed_concat (fields : List (String × Document)) (key : String) (value : Document) :
    framed (fields ++ [(key, value)]) = (some key, value) :: framed fields := by
  simp [framed]

theorem recordOf_framed (fields : List (String × Document)) :
    recordOf (framed fields) = .record fields := by
  have hnamed : (fields.map fun field => (some field.1, field.2)).mapM
      (fun field => field.1.map (·, field.2)) = some fields := by
    induction fields with
    | nil => rfl
    | cons field fields ih => simp [ih]
  rw [recordOf, framed, List.reverse_reverse, hnamed]

/-- A key and its colon. -/
theorem steps_key {goal : Goal} (hgoal : goal = .keyOrEndRecord ∨ goal = .key) (key : String)
    (fields : List (Option String × Document)) (old : Option String) (stack : List Frame)
    (rest : List Token) :
    (⟨goal, .record fields old :: stack⟩ : Reader).steps (.text (some key) :: .colon :: rest) =
      (⟨.value, .record fields (some key) :: stack⟩ : Reader).steps rest := by
  rcases hgoal with rfl | rfl <;> rfl

mutual

/-- The tokens of a document put what it is read as in its place. -/
theorem steps_tokensOf (d : Document) (stack : List Frame) (rest : List Token) :
    (⟨.value, stack⟩ : Reader).steps (tokensOf d ++ rest) = (place (reread d) stack).steps rest := by
  cases d with
  | null => rfl
  | flag value => rfl
  | number value =>
    have hstart := startValue_numberToken value stack
    rw [tokensOf, List.singleton_append, steps_cons, show step ⟨.value, stack⟩ _ = _ from hstart]
    rfl
  | text value => rfl
  | list items =>
    cases items with
    | nil => rfl
    | cons item items =>
      have hitem := steps_tokensOf item (.list [] :: stack) (itemTokens items ++ .endList :: rest)
      have hitems := steps_itemTokens items [reread item] stack rest
      rw [tokensOf, List.cons_append, List.append_assoc, List.append_assoc, List.singleton_append,
        steps_cons, show step ⟨.value, stack⟩ .beginList = some ⟨.valueOrEndList, _⟩ from rfl,
        Option.bind_some, steps_valueOrEndList, hitem]
      exact hitems
  | record fields =>
    cases fields with
    | nil => rfl
    | cons field fields =>
      obtain ⟨key, value⟩ := field
      have hvalue := steps_tokensOf value (.record [] (some key) :: stack)
        (fieldTokens fields ++ .endRecord :: rest)
      have hfields := steps_fieldTokens fields [(key, reread value)] (some key) stack rest
      simp only [tokensOf, List.cons_append, List.append_assoc, List.nil_append]
      rw [steps_cons, show step ⟨.value, stack⟩ .beginRecord = some ⟨.keyOrEndRecord, _⟩ from rfl,
        Option.bind_some, steps_key (.inl rfl), hvalue]
      exact hfields
  | other => rfl
  | invalid => rfl

theorem steps_itemTokens (items done : List Document) (stack : List Frame) (rest : List Token) :
    (⟨.commaOrEnd, .list done :: stack⟩ : Reader).steps (itemTokens items ++ .endList :: rest) =
      (place (.list (done.reverse ++ rereadItems items)) stack).steps rest := by
  cases items with
  | nil =>
    rw [rereadItems, List.append_nil]
    rfl
  | cons item items =>
    have hitem := steps_tokensOf item (.list done :: stack) (itemTokens items ++ .endList :: rest)
    have hitems := steps_itemTokens items (reread item :: done) stack rest
    rw [itemTokens, List.cons_append, List.append_assoc, steps_cons,
      show step ⟨.commaOrEnd, .list done :: stack⟩ .comma = some ⟨.value, _⟩ from rfl,
      Option.bind_some, hitem, rereadItems, List.append_cons done.reverse, ← List.reverse_cons]
    exact hitems

theorem steps_fieldTokens (fields done : List (String × Document)) (key : Option String)
    (stack : List Frame) (rest : List Token) :
    (⟨.commaOrEnd, .record (framed done) key :: stack⟩ : Reader).steps
        (fieldTokens fields ++ .endRecord :: rest) =
      (place (.record (done ++ rereadFields fields)) stack).steps rest := by
  cases fields with
  | nil =>
    rw [rereadFields, List.append_nil, ← recordOf_framed done]
    rfl
  | cons field fields =>
    obtain ⟨name, value⟩ := field
    have hvalue := steps_tokensOf value (.record (framed done) (some name) :: stack)
      (fieldTokens fields ++ .endRecord :: rest)
    have hfields := steps_fieldTokens fields (done ++ [(name, reread value)]) (some name) stack rest
    rw [framed_concat] at hfields
    simp only [fieldTokens, List.cons_append, List.append_assoc]
    rw [steps_cons, show step ⟨.commaOrEnd, .record (framed done) key :: stack⟩ .comma =
        some ⟨.key, _⟩ from rfl, Option.bind_some, steps_key (.inr rfl), hvalue, rereadFields,
      List.append_cons done]
    exact hfields

end

end Reader

/-- A written document is well formed, and it is read as itself but for its numbers. -/
theorem read?_text (style : Style) (d : Document) : read? (text style d) = some (reread d) := by
  have hsteps := Reader.steps_tokensOf d [] []
  rw [List.append_nil] at hsteps
  rw [read?, ofChars?_eq, tokens?_text_eq, Option.bind_some, Reader.ofTokens?, hsteps]
  rfl

end Json
end DryKiln
