import JackCompiler.Text.Ranges

/-! The characters that separate tokens without belonging to one. -/

namespace JackCompiler

/-- The characters with the White_Space property, in ASCII and beyond. -/
def blanks : CodeRanges :=
  [(0x09, 0x0D), (0x20, 0x20), (0x85, 0x85), (0xA0, 0xA0), (0x1680, 0x1680), (0x2000, 0x200A),
    (0x2028, 0x2029), (0x202F, 0x202F), (0x205F, 0x205F), (0x3000, 0x3000)]

/-- Blank characters separate tokens. -/
def isBlank (c : Char) : Bool := blanks.contains c

/-- A line break ends a line comment and may not stand inside a string constant. -/
def isLineBreak (c : Char) : Bool := c == '\n' || c == '\r'

/-- Line breaks are blank, so a line comment and the break after it are skipped together. -/
theorem isBlank_of_isLineBreak {c : Char} (breaks : isLineBreak c = true) : isBlank c = true := by
  -- There are only two line breaks, and both lie in the first run of blank characters.
  simp only [isLineBreak, Bool.or_eq_true, beq_iff_eq] at breaks
  rcases breaks with rfl | rfl <;> decide

/-- Nothing that ASCII has a mark for is blank. -/
theorem isBlank_eq_false {c : Char} (least : 33 ≤ c.toNat) (most : c.toNat ≤ 126) :
    isBlank c = false := by
  -- All marks lie between the space and the blanks beyond ASCII.
  refine Bool.eq_false_iff.mpr fun blank => ?_
  simp only [isBlank, blanks, CodeRanges.contains, CodeRanges.hasCode, Bool.and_eq_true,
    Bool.or_eq_true, decide_eq_true_eq, Bool.false_eq_true, or_false] at blank
  omega

end JackCompiler
