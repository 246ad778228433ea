import JackCompiler.Token.Listing
import JackCompiler.Compilation.Trace

/-! Reports of progress, each with a level. -/

namespace JackCompiler

/-- How important a report is. -/
inductive LogLevel where
  | error
  | info
  | debug
  | trace
deriving DecidableEq

/-- A report, with the part of the program that makes it. -/
structure LogRecord where
  level : LogLevel
  target : String
  message : String
deriving DecidableEq

namespace LogRecord

/-- A report of the command line itself. -/
def ofApplication (level : LogLevel) (message : String) : LogRecord := ⟨level, "jackc", message⟩

/-- The report that a token was read. -/
def ofToken (token : Token) : LogRecord :=
  ⟨.trace, "jack::lex::lexer", s!"token {token.kind.description} at {token.location.text}"⟩

/-- The report of an event of a compilation. -/
def ofEvent : Event → LogRecord
  | .token token => ofToken token
  | .startClass name => ofCompilation .debug s!"compiling class {name}"
  | .startSubroutine kind className name =>
    ofCompilation .debug s!"compiling {kind.text} {className}.{name}"
  | .command command => ofCompilation .trace command.text
where
  /-- A report of the compilation. -/
  ofCompilation (level : LogLevel) (message : String) : LogRecord :=
    ⟨level, "jack::compile::engine", message⟩

end LogRecord

end JackCompiler
