import JackCompiler.Proofs.Token.Decomposition

/-! Tokens that are printed with blanks between them are read back as they were. -/

namespace JackCompiler

/-- A text that may separate two tokens: it is not empty, and all its characters are blank. -/
structure Blanks where
  text : String
  nonempty : text ≠ ""
  blank : ∀ c ∈ text.toList, isBlank c = true

/-- A blank stands at the start of a separator, whatever stands behind it. -/
theorem Blanks.starts (blanks : Blanks) (behind : List Char) :
    ∀ c ∈ (blanks.text.toList ++ behind).head?, isBlank c = true := by
  obtain ⟨first, more, spelled⟩ : ∃ first more, blanks.text.toList = first :: more :=
    List.exists_cons_of_ne_nil (by simpa using blanks.nonempty)
  have blank := blanks.blank first (spelled ▸ List.mem_cons_self)
  simpa [spelled] using blank

end JackCompiler
