import JackCompiler.Text.Bytes

/-! Texts are told apart by their bytes, and are shown as they are. -/

namespace JackCompiler

/-- The bytes of a text are those of its characters, one after the other. -/
theorem utf8_eq_flatMap (text : String) :
    utf8 text = text.toList.flatMap String.utf8EncodeChar := by
  -- A text is kept as the bytes that its characters encode to.
  rw [utf8, String.toUTF8_eq_toByteArray, ← String.utf8Encode_toList, List.utf8Encode,
    List.toList_data_toByteArray]

/-- Back in an array, the bytes of a text are those that the text is kept as. -/
@[simp] theorem toByteArray_utf8 (text : String) : (utf8 text).toByteArray = text.toByteArray := by
  rw [← String.utf8Encode_toList, utf8_eq_flatMap, List.utf8Encode]

/-- Different texts have different bytes. -/
theorem utf8_injective : Function.Injective utf8 := by
  intro text other same
  rw [← String.toByteArray_inj, ← toByteArray_utf8, same, toByteArray_utf8]

/-- The bytes of a text encode a text. -/
@[simp] theorem isText_utf8 (text : String) : isText (utf8 text) = true := by
  rw [isText, toByteArray_utf8, ByteArray.validateUTF8_eq_true_iff]
  exact text.isValidUTF8

/-- The character that is encoded at the front is found, whatever stands behind. -/
theorem firstChar?_append (c : Char) (behind : ByteString) :
    firstChar? (String.utf8EncodeChar c ++ behind) = some c := by
  -- The four bytes that are looked at hold the whole encoding.
  have fits : (String.utf8EncodeChar c).length ≤ 4 := by
    rw [String.length_utf8EncodeChar]
    exact c.utf8Size_le_four
  rw [firstChar?, List.take_append, List.take_of_length_le fits, List.toByteArray_append,
    ByteArray.utf8DecodeChar?_utf8EncodeChar_append]

/-- Bytes of a character that is already shown show nothing more. -/
theorem displayChars_append (shown behind : ByteString) :
    displayChars shown.length (shown ++ behind) = displayChars 0 behind := by
  induction shown with
  | nil => rfl
  | cons byte shown ih => exact ih

/-- A character that is encoded at the front is shown as it is. -/
theorem displayChars_utf8EncodeChar (c : Char) (behind : ByteString) :
    displayChars 0 (String.utf8EncodeChar c ++ behind) = c :: displayChars 0 behind := by
  have found := firstChar?_append c behind
  have size := String.length_utf8EncodeChar c
  -- The first byte shows the character, and the others are passed over.
  obtain ⟨first, more, encoded⟩ :=
    List.exists_cons_of_ne_nil (String.utf8EncodeChar_ne_nil (c := c))
  rw [encoded] at found size ⊢
  have others : c.utf8Size - 1 = more.length := by
    rw [← size, List.length_cons, Nat.add_sub_cancel]
  rw [List.cons_append] at found ⊢
  simp only [displayChars, found, others, displayChars_append]

/-- A text is shown as it is. -/
@[simp] theorem displayText_utf8 (text : String) : displayText (utf8 text) = text := by
  have general (letters : List Char) :
      displayChars 0 (letters.flatMap String.utf8EncodeChar) = letters := by
    induction letters with
    | nil => rfl
    | cons c letters ih => rw [List.flatMap_cons, displayChars_utf8EncodeChar, ih]
  rw [displayText, utf8_eq_flatMap, general, String.ofList_toList]

end JackCompiler
