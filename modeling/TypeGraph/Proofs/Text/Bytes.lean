import Mathlib.Data.List.Lex
import TypeGraph.Text.Position

/-!
# The bytes of texts

Texts are ordered by their characters. Their bytes are in the same order. Characters take as many
bytes as they are counted for.
-/

namespace TypeGraph.Text

def bytes (text : String) : List UInt8 :=
  text.toByteArray.data.toList

theorem bytes_eq_flatMap (text : String) :
    bytes text = text.toList.flatMap String.utf8EncodeChar := by
  have encoded : text.toByteArray = (text.toList.flatMap String.utf8EncodeChar).toByteArray := by
    rw [← String.ofList_toList (s := text), String.toByteArray_ofList, String.toList_ofList]
    rfl
  rw [bytes, encoded, List.data_toByteArray]

theorem length_flatMap_utf8EncodeChar (text : List Char) :
    (text.flatMap String.utf8EncodeChar).length = byteLength text := by
  induction text with
  | nil =>
      rfl
  | cons c rest inner =>
      rw [List.flatMap_cons, List.length_append, inner, String.length_utf8EncodeChar]
      rfl

theorem byteLength_append (front rest : List Char) :
    byteLength (front ++ rest) = byteLength front + byteLength rest := by
  rw [← length_flatMap_utf8EncodeChar, List.flatMap_append, List.length_append,
    length_flatMap_utf8EncodeChar, length_flatMap_utf8EncodeChar]

theorem byteLength_pos {text : List Char} (nonempty : text ≠ []) : 0 < byteLength text := by
  obtain ⟨c, rest, rfl⟩ := List.exists_cons_of_ne_nil nonempty
  exact Nat.add_pos_left c.utf8Size_pos _

theorem byteLength_toList (text : String) : byteLength text.toList = text.utf8ByteSize := by
  rw [← length_flatMap_utf8EncodeChar, ← bytes_eq_flatMap]
  rfl

/-- Of two characters the greater has greater bytes, whatever follows either. -/
theorem utf8EncodeChar_append_lt
    {left right : Char}
    (less : left < right)
    (leftRest rightRest : List UInt8) :
    String.utf8EncodeChar left ++ leftRest < String.utf8EncodeChar right ++ rightRest := by
  have values : left.val.toNat < right.val.toNat := less
  have bound : right.val.toNat < 0x110000 := by
    rcases right.valid with below | ⟨_, below⟩
    · exact Nat.lt_trans below (by decide)
    · exact below
  unfold String.utf8EncodeChar
  dsimp only
  generalize left.val.toNat = v at *
  generalize right.val.toNat = w at *
  -- Each place that is one byte longer begins with a greater byte.
  repeat' split
  all_goals
    simp only [List.cons_append, List.nil_append, List.cons_lt_cons_iff, UInt8.lt_iff_toNat_lt,
      ← UInt8.toNat_inj, UInt8.toNat_ofNat']
    simp (disch := omega) only [Nat.mod_eq_of_lt]
    by_contra contrary
    simp only [not_or, not_and] at contrary
    omega

theorem bytes_lt_bytes {left right : String} (less : left < right) : bytes left < bytes right := by
  rw [bytes_eq_flatMap, bytes_eq_flatMap]
  have lessChars : left.toList < right.toList := less
  generalize left.toList = leftChars at lessChars
  generalize right.toList = rightChars at lessChars
  induction leftChars generalizing rightChars with
  | nil =>
      cases rightChars with
      | nil =>
          exact absurd lessChars (List.lt_irrefl [])
      | cons first rest =>
          rw [List.flatMap_nil, List.flatMap_cons]
          have nonempty := String.utf8EncodeChar_ne_nil (c := first)
          cases encoded : String.utf8EncodeChar first with
          | nil =>
              exact absurd encoded nonempty
          | cons byte others =>
              exact List.nil_lt_cons byte _
  | cons first rest inner =>
      cases rightChars with
      | nil =>
          exact absurd lessChars (List.not_lt_nil _)
      | cons otherFirst otherRest =>
          rw [List.flatMap_cons, List.flatMap_cons]
          rcases List.cons_lt_cons_iff.mp lessChars with lessFirst | ⟨rfl, lessRest⟩
          · exact utf8EncodeChar_append_lt lessFirst _ _
          · exact List.append_left_lt (inner _ lessRest)

end TypeGraph.Text
