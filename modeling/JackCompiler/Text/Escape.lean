import JackCompiler.Text.Printable

/-! Quoted texts in which every character can be told apart. -/

namespace JackCompiler

/-- A character by its number, for those that cannot be shown. -/
def escapeByNumber (c : Char) : String :=
  "\\u\x7b" ++ String.ofList (Nat.toDigits 16 c.toNat) ++ "\x7d"

/-- A character as it stands between the given quotes. -/
def escapeChar (quote c : Char) : String :=
  if c = '\x00' then "\\0"
  else if c = '\t' then "\\t"
  else if c = '\r' then "\\r"
  else if c = '\n' then "\\n"
  -- Only the backslash and the enclosing quote take a backslash, not the other quote.
  else if c = '\\' ∨ c = quote then "\\" ++ c.toString
  else if isPrintable c then c.toString
  else escapeByNumber c

/-- A text between quotes, with every character that needs it escaped. -/
def quoted (quote : Char) (text : String) : String :=
  quote.toString ++ String.join (text.toList.map (escapeChar quote)) ++ quote.toString

end JackCompiler
