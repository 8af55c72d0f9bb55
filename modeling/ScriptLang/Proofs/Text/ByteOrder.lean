import Mathlib.Data.String.Basic

/-!
# The order of texts and of their bytes

Texts are compared character by character. A character that comes before another also has the smaller
bytes in UTF-8, whatever stands behind the two: the first byte tells how many there are, and a
character of more bytes has the greater first byte. So the order of texts is that of their bytes.
-/

namespace ScriptLang.Text

/-- The bytes of a text in UTF-8. -/
def bytes (text : String) : List UInt8 :=
  text.toUTF8.data.toList

/-- The bytes of a text are those of its characters, one after the other. -/
theorem bytes_eq_flatMap (text : String) :
    bytes text = text.toList.flatMap String.utf8EncodeChar := by
  rw [bytes, String.toUTF8_eq_toByteArray, ← String.utf8Encode_toList, List.utf8Encode,
    List.data_toByteArray]

/-- A smaller character has smaller bytes, whatever stands behind the two. -/
theorem utf8EncodeChar_append_lt {c d : Char} (less : c < d) (rest rest' : List UInt8) :
    String.utf8EncodeChar c ++ rest < String.utf8EncodeChar d ++ rest' := by
  have less' : c.val.toNat < d.val.toNat := less
  have bounded (e : Char) : e.val.toNat < 0x110000 := by
    have valid := e.valid
    unfold UInt32.isValidChar Nat.isValidChar at valid
    omega
  have below := bounded c
  have below' := bounded d
  -- the digits of a code point in base 64, one divided by the next
  have third (n : Nat) : n / 4096 = n / 64 / 64 := by omega
  have fourth (n : Nat) : n / 262144 = n / 64 / 64 / 64 := by omega
  unfold String.utf8EncodeChar
  generalize c.val.toNat = v at *
  generalize d.val.toNat = w at *
  dsimp only
  split_ifs <;>
    simp (disch := omega) only [List.cons_append, List.nil_append, List.cons_lt_cons_iff,
      UInt8.lt_iff_toNat_lt, ← UInt8.toNat_inj, UInt8.toNat_ofNat', Nat.mod_eq_of_lt (b := 256),
      Nat.reducePow, third, fourth] <;>
    omega

/-- The order of texts is the order of their bytes. -/
theorem bytes_lt_bytes {first second : String} (less : first < second) :
    bytes first < bytes second := by
  rw [bytes_eq_flatMap, bytes_eq_flatMap]
  have less' : first.toList < second.toList := less
  generalize first.toList = front at *
  generalize second.toList = back at *
  induction less' with
  | nil =>
    rename_i d rest
    cases encoded : String.utf8EncodeChar d with
    | nil => exact absurd encoded String.utf8EncodeChar_ne_nil
    | cons byte bytes => simp [encoded]
  | rel less => exact utf8EncodeChar_append_lt less _ _
  | @cons c front back _ ih =>
    rw [List.flatMap_cons, List.flatMap_cons]
    exact List.append_left_lt ih

end ScriptLang.Text
