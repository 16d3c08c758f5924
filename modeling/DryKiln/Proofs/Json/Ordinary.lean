-- The numbers that a JSON text can mean. NaN has no text, so no document that is read from one
-- holds it: not where a value is complete, and not in a container that is still open.
import DryKiln.Proofs.Json.Tokens

namespace DryKiln

/-- A document that does not hold NaN anywhere. -/
inductive Document.Ordinary : Document → Prop
  | null : Ordinary .null
  | flag (value : Bool) : Ordinary (.flag value)
  | number {value : Numeral} (hvalue : value ≠ .notANumber) : Ordinary (.number value)
  | text (value : String) : Ordinary (.text value)
  | list {items : List Document} (hitems : ∀ d ∈ items, Ordinary d) : Ordinary (.list items)
  | record {fields : List (String × Document)} (hfields : ∀ field ∈ fields, Ordinary field.2) :
      Ordinary (.record fields)
  | other : Ordinary .other
  | invalid : Ordinary .invalid

namespace Json

/-! ## Tokens -/

/-- No token is NaN. -/
def Usual (tokens : List Token) : Prop := Token.number (some .notANumber) ∉ tokens

theorem usual_singleton {token : Token} (h : token ≠ .number (some .notANumber)) :
    Usual [token] := by
  simpa [Usual] using h.symm

theorem Usual.append {first second : List Token} (h : Usual first) (hsecond : Usual second) :
    Usual (first ++ second) := by
  simp [Usual, List.mem_append] at h hsecond ⊢
  exact ⟨h, hsecond⟩

/-- A number is whole or a decimal. -/
theorem numeral?_ne_notANumber (t : NumberText) : t.numeral? ≠ some .notANumber := by
  unfold NumberText.numeral?
  split
  · simp
  · simp

theorem usual_of_number? {cs : List Char} {token : Token} (h : number? cs = some token) :
    Usual [token] := by
  obtain ⟨t, _, rfl⟩ := Option.map_eq_some_iff.mp h
  exact usual_singleton fun heq => numeral?_ne_notANumber t (Token.number.inj heq)

theorem usual_of_word? {cs : List Char} {token : Token} (h : word? cs = some token) :
    Usual [token] := by
  unfold word? at h
  apply usual_singleton
  rintro rfl
  split at h
  · cases h
  · split at h
    · cases h
    · split at h <;> cases h

theorem usual_of_mark? {c : Char} {token : Token} (h : mark? c = some token) : Usual [token] := by
  unfold mark? at h
  apply usual_singleton
  rintro rfl
  repeat' split at h
  all_goals cases h

theorem usual_of_start {c : Char} {next : Scan} {tokens : List Token}
    (h : Scan.start c = some (next, tokens)) : Usual tokens := by
  unfold Scan.start at h
  split at h
  · cases h; exact List.not_mem_nil
  · split at h
    · cases h; exact List.not_mem_nil
    · split at h
      · cases h; exact List.not_mem_nil
      · split at h
        · cases h; exact List.not_mem_nil
        · obtain ⟨token, htoken, heq⟩ := Option.map_eq_some_iff.mp h
          cases heq
          exact usual_of_mark? htoken

/-- A token that ends with the character behind it, and those that this character completes. -/
theorem usual_of_ended {token? : Option Token} {c : Char} {next : Scan} {tokens : List Token}
    (htoken : ∀ token, token? = some token → Usual [token])
    (h : (do
      let token ← token?
      let (next, tokens) ← Scan.start c
      return (next, token :: tokens)) = some (next, tokens)) : Usual tokens := by
  simp only [Option.bind_eq_bind, Option.bind_eq_some_iff, Option.pure_def, Option.some.injEq,
    Prod.mk.injEq, Prod.exists] at h
  obtain ⟨token, hsome, _, rest, hstart, _, rfl⟩ := h
  exact (htoken token hsome).append (usual_of_start hstart)

theorem usual_of_step {scan next : Scan} {c : Char} {tokens : List Token}
    (h : scan.step c = some (next, tokens)) : Usual tokens := by
  cases scan with
  | ground => exact usual_of_start h
  | number taken =>
    simp only [Scan.step] at h
    split at h
    · cases h; exact List.not_mem_nil
    · exact usual_of_ended (fun _ => usual_of_number?) h
  | word taken =>
    simp only [Scan.step] at h
    split at h
    · cases h; exact List.not_mem_nil
    · exact usual_of_ended (fun _ => usual_of_word?) h
  | text taken =>
    simp only [Scan.step] at h
    split at h
    · cases h; exact usual_singleton (by simp [quoted])
    · split at h
      · cases h; exact List.not_mem_nil
      · split at h
        · cases h
        · cases h; exact List.not_mem_nil
  | escape taken =>
    simp only [Scan.step] at h
    split at h
    · cases h; exact List.not_mem_nil
    · obtain ⟨plain, _, heq⟩ := Option.map_eq_some_iff.mp h
      cases heq
      exact List.not_mem_nil
  | code taken value left =>
    obtain ⟨digit, _, heq⟩ := Option.map_eq_some_iff.mp h
    split at heq <;> cases heq <;> exact List.not_mem_nil

theorem usual_of_finish {scan : Scan} {tokens : List Token} (h : scan.finish = some tokens) :
    Usual tokens := by
  cases scan with
  | ground => cases h; exact List.not_mem_nil
  | number taken =>
    obtain ⟨token, htoken, rfl⟩ := Option.map_eq_some_iff.mp h
    exact usual_of_number? htoken
  | word taken =>
    obtain ⟨token, htoken, rfl⟩ := Option.map_eq_some_iff.mp h
    exact usual_of_word? htoken
  | text taken | escape taken | code taken value left => cases h

theorem usual_of_tokens? {scan : Scan} {cs : List Char} {tokens : List Token}
    (h : scan.tokens? cs = some tokens) : Usual tokens := by
  induction cs generalizing scan tokens with
  | nil => exact usual_of_finish h
  | cons c cs ih =>
    simp only [Scan.tokens?, Option.bind_eq_bind, Option.bind_eq_some_iff, Option.pure_def,
      Option.some.injEq, Prod.exists] at h
    obtain ⟨next, first, hstep, rest, hrest, rfl⟩ := h
    exact (usual_of_step hstep).append (ih hrest)

/-! ## The reader -/

/-- What an open container holds is ordinary. -/
def Frame.Ordinary : Frame → Prop
  | .list items => ∀ d ∈ items, d.Ordinary
  | .record fields _ => ∀ field ∈ fields, field.2.Ordinary

/-- What a reader holds is ordinary. -/
structure Reader.Ordinary (reader : Reader) : Prop where
  goal : ∀ d, reader.goal = .nothing d → d.Ordinary
  stack : ∀ frame ∈ reader.stack, frame.Ordinary

namespace Reader

theorem ordinary_place {d : Document} {stack : List Frame} (hd : d.Ordinary)
    (hstack : ∀ frame ∈ stack, frame.Ordinary) : (place d stack).Ordinary := by
  cases stack with
  | nil =>
    refine ⟨?_, by simp [place]⟩
    rintro _ ⟨⟩
    exact hd
  | cons frame rest =>
    obtain ⟨hframe, hrest⟩ := List.forall_mem_cons.mp hstack
    cases frame with
    | list items =>
      exact ⟨nofun, List.forall_mem_cons.mpr ⟨List.forall_mem_cons.mpr ⟨hd, hframe⟩, hrest⟩⟩
    | record fields key =>
      exact ⟨nofun, List.forall_mem_cons.mpr ⟨List.forall_mem_cons.mpr ⟨hd, hframe⟩, hrest⟩⟩

theorem ordinary_startValue {stack : List Frame} {token : Token} {next : Reader}
    (htoken : token ≠ .number (some .notANumber)) (hstack : ∀ frame ∈ stack, frame.Ordinary)
    (h : startValue stack token = some next) : next.Ordinary := by
  have hplace : ∀ d : Document, d.Ordinary → some (place d stack) = some next → next.Ordinary := by
    rintro d hd ⟨⟩
    exact ordinary_place hd hstack
  have hopen : ∀ (goal : Goal) (frame : Frame), (∀ d, goal ≠ .nothing d) → frame.Ordinary →
      some (⟨goal, frame :: stack⟩ : Reader) = some next → next.Ordinary := by
    rintro goal frame hgoal hframe ⟨⟩
    exact ⟨fun d hd => absurd hd (hgoal d), List.forall_mem_cons.mpr ⟨hframe, hstack⟩⟩
  cases token with
  | null => exact hplace _ .null h
  | flag value => exact hplace _ (.flag value) h
  | number value =>
    cases value with
    | none => exact hplace _ .invalid h
    | some n =>
      refine hplace _ (.number ?_) h
      rintro rfl
      exact htoken rfl
  | text value =>
    cases value with
    | none => exact hplace _ .other h
    | some s => exact hplace _ (.text s) h
  | beginList => exact hopen _ _ (by simp) (by simp [Frame.Ordinary]) h
  | beginRecord => exact hopen _ _ (by simp) (by simp [Frame.Ordinary]) h
  | endRecord | endList | colon | comma => cases h

theorem ordinary_takeKey {key : Option String} {stack : List Frame} {next : Reader}
    (hstack : ∀ frame ∈ stack, frame.Ordinary) (h : takeKey key stack = some next) :
    next.Ordinary := by
  cases stack with
  | nil => cases h
  | cons frame rest =>
    cases frame with
    | list items => cases h
    | record fields old =>
      cases h
      obtain ⟨hframe, hrest⟩ := List.forall_mem_cons.mp hstack
      exact ⟨nofun, List.forall_mem_cons.mpr ⟨hframe, hrest⟩⟩

theorem ordinary_recordOf {fields : List (Option String × Document)}
    (h : ∀ field ∈ fields, field.2.Ordinary) : (recordOf fields).Ordinary := by
  have hnamed : ∀ (given : List (Option String × Document)) (named : List (String × Document)),
      (given.mapM fun field => field.1.map (·, field.2)) = some named →
      (∀ field ∈ given, field.2.Ordinary) → ∀ field ∈ named, field.2.Ordinary := by
    intro given
    induction given with
    | nil =>
      rintro named ⟨⟩ _
      simp
    | cons field rest ih =>
      intro named hmap hgiven
      obtain ⟨hfield, hrest⟩ := List.forall_mem_cons.mp hgiven
      simp only [List.mapM_cons, Option.bind_eq_bind, Option.bind_eq_some_iff, Option.pure_def,
        Option.map_eq_some_iff, Option.some.injEq] at hmap
      obtain ⟨_, ⟨key, _, rfl⟩, others, hothers, rfl⟩ := hmap
      exact List.forall_mem_cons.mpr ⟨hfield, ih others hothers hrest⟩
  unfold recordOf
  split
  · rename_i named hsome
    exact .record (hnamed _ named hsome fun field hfield => h field (List.mem_reverse.mp hfield))
  · exact .other

theorem ordinary_close {token : Token} {stack : List Frame} {next : Reader}
    (hstack : ∀ frame ∈ stack, frame.Ordinary) (h : close token stack = some next) :
    next.Ordinary := by
  cases stack with
  | nil => cases h
  | cons frame rest =>
    obtain ⟨hframe, hrest⟩ := List.forall_mem_cons.mp hstack
    cases frame with
    | list items =>
      simp only [close] at h
      split at h
      · cases h
        exact ordinary_place (.list fun d hd => hframe d (List.mem_reverse.mp hd)) hrest
      · cases h
    | record fields key =>
      simp only [close] at h
      split at h
      · cases h
        exact ordinary_place (ordinary_recordOf hframe) hrest
      · cases h

theorem ordinary_separate {stack : List Frame} {next : Reader}
    (hstack : ∀ frame ∈ stack, frame.Ordinary) (h : separate stack = some next) :
    next.Ordinary := by
  cases stack with
  | nil => cases h
  | cons frame rest =>
    cases frame with
    | list items => cases h; exact ⟨nofun, hstack⟩
    | record fields key => cases h; exact ⟨nofun, hstack⟩

/-- A reader stays ordinary with every token that is no NaN. -/
theorem Ordinary.step {reader next : Reader} {token : Token} (h : reader.Ordinary)
    (htoken : token ≠ .number (some .notANumber)) (hnext : reader.step token = some next) :
    next.Ordinary := by
  unfold Reader.step at hnext
  split at hnext
  · exact ordinary_startValue htoken h.stack hnext
  · split at hnext
    · exact ordinary_close h.stack hnext
    · exact ordinary_startValue htoken h.stack hnext
  · split at hnext
    · exact ordinary_takeKey h.stack hnext
    · exact ordinary_close h.stack hnext
  · split at hnext
    · exact ordinary_takeKey h.stack hnext
    · cases hnext
  · split at hnext
    · cases hnext; exact ⟨nofun, h.stack⟩
    · cases hnext
  · split at hnext
    · exact ordinary_separate h.stack hnext
    · exact ordinary_close h.stack hnext
  · cases hnext

theorem Ordinary.steps {reader next : Reader} {tokens : List Token} (h : reader.Ordinary)
    (htokens : Usual tokens) (hnext : reader.steps tokens = some next) : next.Ordinary := by
  induction tokens generalizing reader with
  | nil => cases hnext; exact h
  | cons token tokens ih =>
    rw [steps_cons, Option.bind_eq_some_iff] at hnext
    obtain ⟨middle, hstep, hrest⟩ := hnext
    simp only [Usual, List.mem_cons, not_or] at htokens
    exact ih (h.step (Ne.symm htokens.1) hstep) htokens.2 hrest

end Reader

/-- No document that is read from a text holds NaN. -/
theorem ordinary_of_read? {text : String} {d : Document} (h : read? text = some d) :
    d.Ordinary := by
  rw [read?, ofChars?_eq, Option.bind_eq_some_iff] at h
  obtain ⟨tokens, htokens, hread⟩ := h
  rw [Reader.ofTokens?, Option.bind_eq_some_iff] at hread
  obtain ⟨reader, hsteps, hdone⟩ := hread
  have hempty : (⟨.value, []⟩ : Reader).Ordinary := ⟨by simp, by simp⟩
  have hreader := hempty.steps (usual_of_tokens? htokens) hsteps
  unfold Reader.done? at hdone
  split at hdone
  · rename_i hgoal
    cases hdone
    exact hreader.goal d hgoal
  · cases hdone

end Json
end DryKiln
