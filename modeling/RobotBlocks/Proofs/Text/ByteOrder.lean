import Mathlib.Tactic.SplitIfs

/-!
# The order of texts by bytes

Texts are ordered by the numbers of their characters, the first difference first. Their encodings in
bytes are in the same order (`Text.bytes_lt_bytes`): a character with a smaller number has a smaller
encoding, and none is the beginning of another.
-/

set_option autoImplicit false

namespace RobotBlocks.Text

open List

def bytes (text : String) : List UInt8 := text.toUTF8.data.toList

theorem bytes_eq_flatMap (text : String) : bytes text = text.toList.flatMap String.utf8EncodeChar := by
  rw [bytes, String.toUTF8, ← String.ofList_toList (s := text), String.toByteArray_ofList,
    List.utf8Encode, data_toByteArray, String.toList_ofList]

/-- Of two bytes in an encoding the numbers can be compared. -/
theorem ofNat_cons_lt_iff {a b : Nat} (ha : a < 256) (hb : b < 256) (rest rest' : List UInt8) :
    UInt8.ofNat a :: rest < UInt8.ofNat b :: rest' ↔ a < b ∨ a = b ∧ rest < rest' := by
  rw [cons_lt_cons_iff, UInt8.lt_iff_toNat_lt, ← UInt8.toNat_inj, UInt8.toNat_ofNat_of_lt' ha,
    UInt8.toNat_ofNat_of_lt' hb]

/-- Whatever follows, a smaller character makes the bytes smaller. -/
theorem utf8EncodeChar_append_lt {c d : Char} (h : c < d) (rest rest' : List UInt8) :
    String.utf8EncodeChar c ++ rest < String.utf8EncodeChar d ++ rest' := by
  have hlt : c.val.toNat < d.val.toNat := h
  have hvalid : d.val.toNat < 1114112 := by
    have := d.valid
    unfold UInt32.isValidChar Nat.isValidChar at this
    omega
  unfold String.utf8EncodeChar
  dsimp only
  generalize c.val.toNat = m at *
  generalize d.val.toNat = n at *
  have hdigits : ∀ k : Nat, k < 1114112 →
      k / 64 / 64 = k / 4096 ∧ k / 4096 / 64 = k / 262144 ∧ k / 262144 % 8 = k / 262144 := by omega
  have hm := hdigits m (by omega)
  have hn := hdigits n hvalid
  -- the first byte tells the number of bytes; with as many bytes, the digits decide
  split_ifs <;>
    (simp (disch := omega) only [cons_append, nil_append, ofNat_cons_lt_iff]; omega)

/-- Texts are in the order of their bytes. -/
theorem bytes_lt_bytes {a b : String} (h : a < b) : bytes a < bytes b := by
  rw [bytes_eq_flatMap, bytes_eq_flatMap]
  have hchars : a.toList < b.toList := h
  generalize a.toList = chars, b.toList = chars' at hchars
  induction chars generalizing chars' with
  | nil =>
    cases chars' with
    | nil => exact absurd hchars (List.lt_irrefl [])
    | cons d rest' =>
      obtain ⟨first, others, henc⟩ := exists_cons_of_ne_nil (String.utf8EncodeChar_ne_nil (c := d))
      rw [flatMap_cons, henc]
      exact nil_lt_cons _ _
  | cons c rest ih =>
    cases chars' with
    | nil => exact absurd hchars (not_lt_nil _)
    | cons d rest' =>
      rw [flatMap_cons, flatMap_cons]
      rcases cons_lt_cons_iff.1 hchars with hlt | ⟨rfl, hrest⟩
      · exact utf8EncodeChar_append_lt hlt _ _
      · exact append_left_lt (ih rest' hrest)

end RobotBlocks.Text
