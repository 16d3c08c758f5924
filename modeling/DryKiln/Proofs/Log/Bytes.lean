-- The bytes of a row. What is put into the buffer piece by piece is the row in UTF-8, and bytes
-- that were characters are read as these characters again.
import DryKiln.Log.Writer

namespace DryKiln
namespace Utf8

/-- Characters as bytes. -/
def encode (cs : List Char) : List UInt8 := cs.flatMap String.utf8EncodeChar

@[simp] theorem encode_nil : encode [] = [] := rfl

@[simp] theorem encode_cons (c : Char) (cs : List Char) :
    encode (c :: cs) = String.utf8EncodeChar c ++ encode cs := List.flatMap_cons

@[simp] theorem encode_append (before after : List Char) :
    encode (before ++ after) = encode before ++ encode after := List.flatMap_append

theorem length_encode (s : String) : (encode s.toList).length = s.utf8ByteSize := by
  have h := congrArg ByteArray.size (String.toByteArray_ofList (l := s.toList))
  rw [String.ofList_toList, String.size_toByteArray, List.utf8Encode] at h
  rw [h, encode, List.size_toByteArray]

/-! ## One character -/

theorem toNat_ofNat {n : Nat} (h : n < 256) : (UInt8.ofNat n).toNat = n := by
  simp [Nat.mod_eq_of_lt h]

theorem ofNat_val (c : Char) : Char.ofNat c.val.toNat = c := Char.ofNat_toNat c

/-- A byte that goes on with a character for which more bytes than it are due. -/
theorem decodeFrom_goOn {due value n : Nat} {low high : UInt8} (rest : List UInt8)
    (hdue : 1 < due) (hn : n < 256) (hlow : low.toNat ≤ n) (hhigh : n ≤ high.toNat) :
    decodeFrom (some ⟨due, low, high, value⟩) (UInt8.ofNat n :: rest) =
      decodeFrom (some ⟨due - 1, 0x80, 0xBF, 64 * value + (n - 0x80)⟩) rest := by
  have hlow' : low ≤ UInt8.ofNat n := by rw [UInt8.le_iff_toNat_le, toNat_ofNat hn]; exact hlow
  have hhigh' : UInt8.ofNat n ≤ high := by rw [UInt8.le_iff_toNat_le, toNat_ofNat hn]; exact hhigh
  simp [decodeFrom, goOn, hlow', hhigh', Nat.not_le.mpr hdue, toNat_ofNat hn]

/-- The last byte of a character. -/
theorem decodeFrom_last {value n : Nat} {low high : UInt8} (rest : List UInt8) (hn : n < 256)
    (hlow : low.toNat ≤ n) (hhigh : n ≤ high.toNat) :
    decodeFrom (some ⟨1, low, high, value⟩) (UInt8.ofNat n :: rest) =
      Char.ofNat (64 * value + (n - 0x80)) :: decodeFrom none rest := by
  have hlow' : low ≤ UInt8.ofNat n := by rw [UInt8.le_iff_toNat_le, toNat_ofNat hn]; exact hlow
  have hhigh' : UInt8.ofNat n ≤ high := by rw [UInt8.le_iff_toNat_le, toNat_ofNat hn]; exact hhigh
  simp [decodeFrom, goOn, hlow', hhigh', toNat_ofNat hn]

/-- The first byte of a character that has more than one. -/
theorem decodeFrom_start {n : Nat} {begun : Begun} (rest : List UInt8)
    (h : start (UInt8.ofNat n) = ([], some begun)) :
    decodeFrom none (UInt8.ofNat n :: rest) = decodeFrom (some begun) rest := by
  simp [decodeFrom, h]

/-- A character is read as itself, whatever comes behind it. -/
theorem decodeFrom_utf8EncodeChar (c : Char) (rest : List UInt8) :
    decodeFrom none (String.utf8EncodeChar c ++ rest) = c :: decodeFrom none rest := by
  have hvalid : c.val.toNat < 0xD800 ∨ 0xDFFF < c.val.toNat ∧ c.val.toNat < 0x110000 := c.valid
  have hchar := ofNat_val c
  unfold String.utf8EncodeChar
  generalize c.val.toNat = v at hvalid hchar
  dsimp only
  split
  · -- one byte
    have hstart : start (UInt8.ofNat v) = ([Char.ofNat v], none) := by
      simp only [start, toNat_ofNat (show v < 256 by omega)]
      rw [if_pos (by omega)]
    simp [decodeFrom, hstart, hchar]
  · split
    · -- two bytes
      have hstart : start (UInt8.ofNat (v / 64 % 32 + 192)) =
          ([], some ⟨1, 0x80, 0xBF, v / 64 % 32 + 192 - 0xC0⟩) := by
        simp only [start, toNat_ofNat (show v / 64 % 32 + 192 < 256 by omega)]
        rw [if_neg (by omega), if_neg (by omega), if_pos (by omega)]
      have hv : 64 * (v / 64 % 32 + 192 - 0xC0) + (v % 64 + 128 - 0x80) = v := by omega
      rw [List.cons_append, List.cons_append, List.nil_append, decodeFrom_start _ hstart,
        decodeFrom_last _ (by omega) (by simp) (by simp; omega), hv, hchar]
    · split
      · -- three bytes; what the second may be depends on the first
        have hstart : ∃ low high : UInt8, start (UInt8.ofNat (v / 4096 % 16 + 224)) =
            ([], some ⟨2, low, high, v / 4096 % 16 + 224 - 0xE0⟩) ∧
              low.toNat ≤ v / 64 % 64 + 128 ∧ v / 64 % 64 + 128 ≤ high.toNat := by
          simp only [start, toNat_ofNat (show v / 4096 % 16 + 224 < 256 by omega)]
          rw [if_neg (by omega), if_neg (by omega), if_neg (by omega)]
          split
          · next h => exact ⟨0xA0, 0xBF, by simp [h], by simp; omega, by simp; omega⟩
          · split
            · next h => exact ⟨0x80, 0x9F, by simp [h], by simp, by simp; omega⟩
            · rw [if_pos (by omega)]
              exact ⟨0x80, 0xBF, rfl, by simp, by simp; omega⟩
        obtain ⟨low, high, hstart, hlow, hhigh⟩ := hstart
        have hv : 64 * (64 * (v / 4096 % 16 + 224 - 0xE0) + (v / 64 % 64 + 128 - 0x80)) +
            (v % 64 + 128 - 0x80) = v := by omega
        rw [List.cons_append, List.cons_append, List.cons_append, List.nil_append,
          decodeFrom_start _ hstart, decodeFrom_goOn _ (by omega) (by omega) hlow hhigh,
          decodeFrom_last _ (by omega) (by simp) (by simp; omega), hv, hchar]
      · -- four bytes, as before
        have hstart : ∃ low high : UInt8, start (UInt8.ofNat (v / 262144 % 8 + 240)) =
            ([], some ⟨3, low, high, v / 262144 % 8 + 240 - 0xF0⟩) ∧
              low.toNat ≤ v / 4096 % 64 + 128 ∧ v / 4096 % 64 + 128 ≤ high.toNat := by
          simp only [start, toNat_ofNat (show v / 262144 % 8 + 240 < 256 by omega)]
          rw [if_neg (by omega), if_neg (by omega), if_neg (by omega), if_neg (by omega),
            if_neg (by omega), if_neg (by omega)]
          split
          · next h => exact ⟨0x90, 0xBF, by simp [h], by simp; omega, by simp; omega⟩
          · split
            · exact ⟨0x80, 0xBF, rfl, by simp, by simp; omega⟩
            · have hlast : v / 262144 % 8 = 4 := by omega
              exact ⟨0x80, 0x8F, by simp [hlast], by simp, by simp; omega⟩
        obtain ⟨low, high, hstart, hlow, hhigh⟩ := hstart
        have hv : 64 * (64 * (64 * (v / 262144 % 8 + 240 - 0xF0) + (v / 4096 % 64 + 128 - 0x80)) +
            (v / 64 % 64 + 128 - 0x80)) + (v % 64 + 128 - 0x80) = v := by omega
        rw [List.cons_append, List.cons_append, List.cons_append, List.cons_append, List.nil_append,
          decodeFrom_start _ hstart, decodeFrom_goOn _ (by omega) (by omega) hlow hhigh,
          decodeFrom_goOn _ (by omega) (by omega) (by simp) (by simp; omega),
          decodeFrom_last _ (by omega) (by simp) (by simp; omega), hv, hchar]

/-! ## Several characters -/

theorem decode_encode (cs : List Char) : decode (encode cs) = cs := by
  induction cs with
  | nil => rfl
  | cons c cs ih => rw [encode_cons, decode, decodeFrom_utf8EncodeChar, ← decode, ih]

/-- The start of a character is read as something, whatever comes behind it. -/
theorem decodeFrom_some_ne_nil (begun : Begun) (bytes : List UInt8) :
    decodeFrom (some begun) bytes ≠ [] := by
  induction bytes generalizing begun with
  | nil => simp [decodeFrom]
  | cons byte bytes ih =>
    simp only [decodeFrom, goOn]
    split
    · split
      · simp
      · exact ih _
    · simp

/-- A byte settles a character or begins one. -/
theorem start_cases (byte : UInt8) :
    (start byte).1 ≠ [] ∨ ∃ begun, (start byte).2 = some begun := by
  unfold start
  dsimp only
  repeat' split
  all_goals first | exact .inl (List.cons_ne_nil _ _) | exact .inr ⟨_, rfl⟩

theorem decode_eq_nil_iff {bytes : List UInt8} : decode bytes = [] ↔ bytes = [] := by
  refine ⟨fun h => ?_, fun h => h ▸ rfl⟩
  cases bytes with
  | nil => rfl
  | cons byte bytes =>
    obtain ⟨hsettled, hrest⟩ := List.append_eq_nil_iff.mp h
    obtain hne | ⟨begun, hbegun⟩ := start_cases byte
    · exact absurd hsettled hne
    · exact absurd (hbegun ▸ hrest) (decodeFrom_some_ne_nil begun bytes)

end Utf8

namespace Csv

/-! ## The pieces of a row -/

/-- The bytes of several pieces. -/
def bytesOf (pieces : List Piece) : List UInt8 := pieces.flatMap Piece.bytes

@[simp] theorem bytesOf_nil : bytesOf [] = [] := rfl

@[simp] theorem bytesOf_cons (piece : Piece) (pieces : List Piece) :
    bytesOf (piece :: pieces) = piece.bytes ++ bytesOf pieces := List.flatMap_cons

@[simp] theorem bytesOf_append (before after : List Piece) :
    bytesOf (before ++ after) = bytesOf before ++ bytesOf after := List.flatMap_append

theorem bytesOf_character (fields : Nat) (inQuotes : Bool) {c : Char} (h : c ≠ '"') :
    bytesOf (character fields inQuotes c) = String.utf8EncodeChar c := by
  simp only [character, if_neg h, bytesOf, List.flatMap_map]
  induction String.utf8EncodeChar c with
  | nil => rfl
  | cons byte bytes ih => rw [List.flatMap_cons, ih]; rfl

theorem bytesOf_quoted (fields : Nat) (inQuotes : Bool) (cs : List Char) :
    bytesOf (cs.flatMap (character fields inQuotes)) = Utf8.encode (doubleQuotes cs) := by
  induction cs with
  | nil => rfl
  | cons c cs ih =>
    by_cases hc : c = '"'
    · subst hc
      simp only [List.flatMap_cons, bytesOf_append, ih, doubleQuotes, if_pos, Utf8.encode_cons]
      rfl
    · simp [bytesOf_character _ _ hc, ih, doubleQuotes, hc]

theorem doubleQuotes_eq_self {cs : List Char} (h : needsQuotes cs = false) :
    doubleQuotes cs = cs := by
  induction cs with
  | nil => rfl
  | cons c cs ih =>
    obtain ⟨hc, hcs⟩ := Bool.or_eq_false_iff.mp h
    have hne : c ≠ '"' := by rintro rfl; simp [isSpecial] at hc
    rw [doubleQuotes, if_neg hne, ih hcs]

/-- A field up to its closing quote, and that. -/
theorem bytesOf_opened (fields : Nat) (cs : List Char) :
    bytesOf (opened fields cs) ++ bytesOf (closing fields (needsQuotes cs)) =
      Utf8.encode (field cs) := by
  cases hq : needsQuotes cs with
  | true =>
    simp only [opened, hq, closing, field, if_pos, bytesOf_append, bytesOf_quoted,
      Utf8.encode_append]
    rfl
  | false =>
    simp only [opened, hq, closing, field, bytesOf_append, bytesOf_quoted, doubleQuotes_eq_self hq]
    simp

theorem bytesOf_closing (fields other : Nat) (inQuotes : Bool) :
    bytesOf (closing fields inQuotes) = bytesOf (closing other inQuotes) := by
  cases inQuotes <;> rfl

/-- What comes behind a field: the rest of the row, which may be only its line feed. -/
def behindField : List (List Char) → List Char
  | [] => ['\n']
  | next :: rest => ',' :: row (next :: rest)

theorem row_cons (cs : List Char) (rest : List (List Char)) :
    row (cs :: rest) = field cs ++ behindField rest := by
  cases rest <;> rfl

/-- The last of some fields behind one is in quotes. -/
def quotesBehind (inQuotes : Bool) (rest : List (List Char)) : Bool :=
  (rest.getLast?.map needsQuotes).getD inQuotes

theorem quotesBehind_cons (inQuotes : Bool) (cs : List Char) (rest : List (List Char)) :
    quotesBehind inQuotes (cs :: rest) = quotesBehind (needsQuotes cs) rest := by
  cases rest with
  | nil => rfl
  | cons next rest => simp [quotesBehind, List.getLast?_cons]

theorem bytesOf_behindField {fields : Nat} (h : 0 < fields) (inQuotes : Bool)
    (rest : List (List Char)) (last : Nat) :
    bytesOf (pieces fields inQuotes rest) ++
        (bytesOf (closing last (quotesBehind inQuotes rest)) ++ [10]) =
      bytesOf (closing fields inQuotes) ++ Utf8.encode (behindField rest) := by
  induction rest generalizing fields inQuotes with
  | nil =>
    rw [bytesOf_closing last fields]
    rfl
  | cons cs rest ih =>
    have hsep : bytesOf (separator fields inQuotes) =
        bytesOf (closing fields inQuotes) ++ [44] := by
      simp [separator, Nat.ne_of_gt h]
    have hcomma : Utf8.encode (behindField (cs :: rest)) =
        44 :: Utf8.encode (field cs ++ behindField rest) := by
      rw [behindField, row_cons]
      rfl
    rw [pieces, quotesBehind_cons, bytesOf_append, bytesOf_append, hsep, List.append_assoc,
      ih (Nat.succ_pos fields), hcomma, Utf8.encode_append, ← bytesOf_opened fields,
      bytesOf_closing (fields + 1) fields]
    simp

/-- The pieces of a row are the row in UTF-8. -/
theorem bytesOf_wholeRow (fields : List (List Char)) :
    bytesOf (wholeRow fields) = Utf8.encode (row fields) := by
  cases fields with
  | nil => rfl
  | cons cs rest =>
    have hends : endsInQuotes (cs :: rest) = quotesBehind (needsQuotes cs) rest :=
      quotesBehind_cons false cs rest
    have hbehind := bytesOf_behindField Nat.one_pos (needsQuotes cs) rest (rest.length + 1)
    rw [wholeRow, hends, pieces, row_cons, Utf8.encode_append, ← bytesOf_opened 0,
      bytesOf_closing 0 1, List.append_assoc (bytesOf _), ← hbehind]
    simp [separator]

end Csv
end DryKiln
