-- The order of texts. Texts are compared by their characters, and UTF-8 keeps this order: of two
-- texts the smaller one is also the smaller one as bytes.
import DryKiln.Proofs.Log.Bytes
import Mathlib.Data.Char
import Mathlib.Data.List.Lex
import Mathlib.Tactic.SplitIfs

namespace DryKiln
namespace Utf8

/-! ## One character -/

theorem cons_ofNat_lt_cons_ofNat {n m : Nat} (hn : n < 256) (hm : m < 256)
    {rest rest' : List UInt8} :
    UInt8.ofNat n :: rest < UInt8.ofNat m :: rest' ↔ n < m ∨ n = m ∧ rest < rest' := by
  rw [List.cons_lt_cons_iff, UInt8.lt_iff_toNat_lt, ← UInt8.toNat_inj, toNat_ofNat hn,
    toNat_ofNat hm]

/-- Of two characters with four bytes the smaller one has the smaller bytes. -/
theorem fourBytes_lt {v w : Nat} (hlt : v < w) (hw : w < 0x110000) {rest rest' : List UInt8} :
    UInt8.ofNat (v / 262144 % 8 + 240) :: UInt8.ofNat (v / 4096 % 64 + 128) ::
        UInt8.ofNat (v / 64 % 64 + 128) :: UInt8.ofNat (v % 64 + 128) :: rest <
      UInt8.ofNat (w / 262144 % 8 + 240) :: UInt8.ofNat (w / 4096 % 64 + 128) ::
        UInt8.ofNat (w / 64 % 64 + 128) :: UInt8.ofNat (w % 64 + 128) :: rest' := by
  simp (disch := omega) only [cons_ofNat_lt_cons_ofNat]
  -- the bytes are the digits of the numbers to the base 64
  rcases (Nat.div_le_div_right hlt.le : v / 262144 ≤ w / 262144).lt_or_eq with hfirst | hfirst
  · exact .inl (by omega)
  refine .inr ⟨by rw [hfirst], ?_⟩
  rcases (Nat.div_le_div_right hlt.le : v / 4096 ≤ w / 4096).lt_or_eq with hsecond | hsecond
  · exact .inl (by omega)
  refine .inr ⟨by rw [hsecond], ?_⟩
  omega

/-- A smaller character has the smaller bytes, whatever comes behind them. -/
theorem utf8EncodeChar_append_lt {c d : Char} (h : c < d) (rest rest' : List UInt8) :
    String.utf8EncodeChar c ++ rest < String.utf8EncodeChar d ++ rest' := by
  have hlt : c.val.toNat < d.val.toNat := UInt32.lt_iff_toNat_lt.mp h
  have hd : d.val.toNat < 0x110000 := by
    have hvalid : d.val.toNat < 0xD800 ∨ 0xDFFF < d.val.toNat ∧ d.val.toNat < 0x110000 := d.valid
    omega
  unfold String.utf8EncodeChar
  generalize c.val.toNat = v at hlt
  generalize d.val.toNat = w at hlt hd
  dsimp only
  -- a smaller character has no more bytes than the other one
  split_ifs <;> try omega
  all_goals
    first
    | exact fourBytes_lt hlt hd
    | simp (disch := omega) only [List.cons_append, List.nil_append, cons_ofNat_lt_cons_ofNat]
      omega

/-! ## Several characters -/

theorem encode_lt_encode_of_lt {cs ds : List Char} (h : cs < ds) : encode cs < encode ds := by
  induction h with
  | @nil c cs =>
    obtain ⟨byte, rest, hbytes⟩ :=
      List.exists_cons_of_ne_nil (l := String.utf8EncodeChar c) String.utf8EncodeChar_ne_nil
    rw [encode_cons, hbytes]
    exact List.nil_lt_cons _ _
  | rel h => exact utf8EncodeChar_append_lt h _ _
  | cons h ih => exact List.append_left_lt ih

theorem encode_lt_encode_iff {cs ds : List Char} : encode cs < encode ds ↔ cs < ds := by
  refine ⟨fun h => ?_, encode_lt_encode_of_lt⟩
  rcases lt_trichotomy cs ds with hlt | rfl | hgt
  · exact hlt
  · exact absurd h (List.lt_irrefl _)
  · exact absurd h (List.lt_asymm (encode_lt_encode_of_lt hgt))

/-- The bytes of a text. -/
def bytes (s : String) : List UInt8 := s.toUTF8.data.toList

theorem bytes_eq_encode (s : String) : bytes s = encode s.toList := by
  have h := String.toByteArray_ofList (l := s.toList)
  rw [String.ofList_toList, List.utf8Encode] at h
  rw [bytes, String.toUTF8_eq_toByteArray, h, List.data_toByteArray]
  rfl

/-- The order of texts is the order of their bytes. -/
theorem bytes_lt_bytes_iff {s t : String} : bytes s < bytes t ↔ s < t := by
  rw [bytes_eq_encode, bytes_eq_encode]
  exact encode_lt_encode_iff

theorem bytes_le_bytes_iff {s t : String} : bytes s ≤ bytes t ↔ s ≤ t :=
  not_congr bytes_lt_bytes_iff

end Utf8
end DryKiln
