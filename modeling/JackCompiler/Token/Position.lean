/-! Places in a source text, by line and column and by byte. -/

namespace JackCompiler

/-- A place as messages show it: line and column count from one, and columns count characters. -/
structure Location where
  line : Nat
  column : Nat
deriving DecidableEq

namespace Location

/-- The first character of a source stands at line one, column one. -/
def start : Location := ⟨1, 1⟩

/-- The place after a character: only a line feed starts a new line. -/
def advance (location : Location) (c : Char) : Location :=
  if c = '\n' then ⟨location.line + 1, 1⟩ else ⟨location.line, location.column + 1⟩

/-- A place is written as its line and its column with a colon between them. -/
def text (location : Location) : String := s!"{location.line}:{location.column}"

end Location

/-- A place together with the number of bytes that stand before it. -/
structure Position where
  offset : Nat
  location : Location
deriving DecidableEq

namespace Position

/-- Nothing stands before the start of a source. -/
def start : Position := ⟨0, .start⟩

/-- Moving over one character adds its encoded size to the offset. -/
def advance (position : Position) (c : Char) : Position :=
  ⟨position.offset + c.utf8Size, position.location.advance c⟩

end Position

/-- The extent of a token: where it starts, and how many bytes it takes. -/
structure Span where
  index : Nat
  size : Nat
  location : Location
deriving DecidableEq

namespace Span

/-- The offset of the first byte after the span. -/
def stop (span : Span) : Nat := span.index + span.size

/-- The text a span covers, or nothing when an end of it is no character boundary of the source. -/
def fragment? (span : Span) (source : String) : Option String := do
  let first ← source.pos? ⟨span.index⟩
  let last ← source.pos? ⟨span.stop⟩
  return source.extract first last

end Span

end JackCompiler
