import JackCompiler.Text.Escape
import JackCompiler.Token.Basic

/-! Tokens as they are shown to someone who examines a source. -/

namespace JackCompiler

/-- The name of a keyword in a listing. -/
def Keyword.title (keyword : Keyword) : String := keyword.text.capitalize

/-- A token with its form spelled out, and with characters escaped that cannot be shown. -/
def TokenKind.description : TokenKind → String
  | .keyword word => s!"Keyword({word.title})"
  | .identifier name => "Identifier(" ++ quoted '"' name ++ ")"
  | .symbol c => "Symbol(" ++ quoted '\'' c.toString ++ ")"
  | .integer value => s!"IntegerConstant({value})"
  | .string body => "StringConstant(" ++ quoted '"' body ++ ")"

/-- A text with blanks before it up to a width. -/
def padLeft (width : Nat) (text : String) : String := "".pushn ' ' (width - text.length) ++ text

/-- A text with blanks after it up to a width. -/
def padRight (width : Nat) (text : String) : String := text.pushn ' ' (width - text.length)

/-- The line above a listing of tokens. -/
def listingHeader : String :=
  " line:col  | offset:len | token                    | fragment "

/-- The line of a token in a listing, with the text that the token has in its source. -/
def Token.listing (token : Token) (fragment : String) : String :=
  padLeft 10 token.location.text ++ " " ++ padLeft 7 (toString token.span.index) ++ ":" ++
    padRight 3 (toString token.span.size) ++ " " ++ padRight 26 token.kind.description ++
    " \"" ++ fragment ++ "\""

end JackCompiler
